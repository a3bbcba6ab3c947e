import Whuctf.Library.Python
import Whuctf.Library.Refinement

/-!
# UTF-8 as Python decodes it

`bytes.decode()` in its strict form, and `str.encode()` of ASCII texts.  A byte string decodes to an
ASCII text only if it consists of the bytes of that text.

A byte below 128 is a character of its own, a leading byte says how many continuation bytes belong to
it, and a sequence longer than its code point needs is an error, as is a surrogate.  So no text has two
encodings.
-/

namespace Whuctf.Utf8

open Python

/-- `text.encode()` of an ASCII text, one byte for each character. -/
def encodeAscii (text : List Char) : List Byte := text.map fun c => BitVec.ofNat 8 c.toNat

/-- The six bits of a continuation byte, if the byte is one. -/
def continuation (b : Byte) : Option ℕ :=
  if 0x80 ≤ b.toNat ∧ b.toNat < 0xc0 then some (b.toNat - 0x80) else none

/-- A code point read from continuation bytes, with the bytes after them: `n` holds the bits so far. -/
def continued (n : ℕ) : ℕ → List Byte → Option (ℕ × List Byte)
  | 0, rest => some (n, rest)
  | _ + 1, [] => none
  | k + 1, b :: rest => do continued (n * 0x40 + (← continuation b)) k rest

/-- A code point of at least `low` that is not a surrogate: no other is well formed. -/
def wellFormed (low : ℕ) (read : Option (ℕ × List Byte)) : Option (ℕ × List Byte) :=
  read.filter fun p => low ≤ p.1 ∧ p.1 < 0x110000 ∧ ¬(0xd800 ≤ p.1 ∧ p.1 < 0xe000)

/-- The first code point of a byte string, with the bytes after it. -/
def codePoint : List Byte → Option (ℕ × List Byte)
  | [] => none
  | b :: rest =>
      if b.toNat < 0x80 then some (b.toNat, rest)
      else if b.toNat < 0xc0 then none
      else if b.toNat < 0xe0 then wellFormed 0x80 (continued (b.toNat - 0xc0) 1 rest)
      else if b.toNat < 0xf0 then wellFormed 0x800 (continued (b.toNat - 0xe0) 2 rest)
      else if b.toNat < 0xf8 then wellFormed 0x10000 (continued (b.toNat - 0xf0) 3 rest)
      else none

lemma length_continued : ∀ {k n : ℕ} {bs rest : List Byte} {m : ℕ},
    continued n k bs = some (m, rest) → rest.length ≤ bs.length
  | 0, n, bs, rest, m, h => by
      simp only [continued, Option.some.injEq, Prod.mk.injEq] at h
      exact h.2 ▸ le_rfl
  | _ + 1, n, [], rest, m, h => by cases h
  | k + 1, n, b :: bs, rest, m, h => by
      simp only [continued] at h
      obtain ⟨bits, _, hmore⟩ := Option.bind_eq_some_iff.mp h
      exact (length_continued hmore).trans (Nat.le_succ _)

lemma of_wellFormed {low : ℕ} {read : Option (ℕ × List Byte)} {p : ℕ × List Byte}
    (h : wellFormed low read = some p) : read = some p ∧ low ≤ p.1 ∧ p.1.isValidChar := by
  obtain ⟨hread, hp⟩ := Option.filter_eq_some_iff.mp h
  simp only [decide_eq_true_eq] at hp
  refine ⟨hread, hp.1, ?_⟩
  unfold Nat.isValidChar
  omega

lemma codePoint_cases {b : Byte} {bs rest : List Byte} {n : ℕ}
    (h : codePoint (b :: bs) = some (n, rest)) :
    rest.length ≤ bs.length ∧
      (b.toNat < 0x80 ∧ n = b.toNat ∧ rest = bs ∨ 0x80 ≤ n ∧ n.isValidChar) := by
  have hmulti : ∀ {low k m : ℕ}, 0x80 ≤ low →
      wellFormed low (continued m k bs) = some (n, rest) →
      rest.length ≤ bs.length ∧
        (b.toNat < 0x80 ∧ n = b.toNat ∧ rest = bs ∨ 0x80 ≤ n ∧ n.isValidChar) := by
    intro low k m hlow hread
    obtain ⟨hcontinued, hle, hvalid⟩ := of_wellFormed hread
    exact ⟨length_continued hcontinued, Or.inr ⟨hlow.trans hle, hvalid⟩⟩
  simp only [codePoint] at h
  split_ifs at h with hascii hcont htwo hthree hfour
  · simp only [Option.some.injEq, Prod.mk.injEq] at h
    obtain ⟨rfl, rfl⟩ := h
    exact ⟨le_rfl, Or.inl ⟨hascii, rfl, rfl⟩⟩
  · exact hmulti (by omega) h
  · exact hmulti (by omega) h
  · exact hmulti (by omega) h

/-- `bs.decode()`: code points from left to right, with the exception of the decoder at the first that
is not well formed. -/
def decode (bs : List Byte) : Except PyError (List Char) :=
  match bs with
  | [] => .ok []
  | b :: bs =>
      match _h : codePoint (b :: bs) with
      | none => .error .unicodeDecodeError
      | some (n, rest) => do return Char.ofNat n :: (← decode rest)
termination_by bs.length
decreasing_by
  have hle := (codePoint_cases _h).1
  simp only [List.length_cons]
  omega

/-! ## ASCII -/

lemma toNat_ofNat {n : ℕ} (h : n.isValidChar) : (Char.ofNat n).toNat = n := by
  rw [Char.ofNat, dif_pos h]
  rfl

/-- ASCII bytes decode to their characters, one for each byte. -/
lemma decode_ascii {bs : List Byte} (h : ∀ b ∈ bs, b.toNat < 0x80) :
    decode bs = .ok (bs.map fun b => Char.ofNat b.toNat) := by
  induction bs with
  | nil => rw [decode]; rfl
  | cons b bs ih =>
    have hfirst : codePoint (b :: bs) = some (b.toNat, bs) := by
      rw [codePoint, if_pos (h b List.mem_cons_self)]
    have hrest := ih fun c hc => h c (List.mem_cons_of_mem b hc)
    rw [decode]
    split
    · simp_all
    · rename_i n rest heq
      rw [hfirst] at heq
      obtain ⟨rfl, rfl⟩ : b.toNat = n ∧ bs = rest := by simpa using heq
      rw [hrest, ok_bind]
      rfl

/-- Only ASCII bytes decode to an ASCII text, because the longer forms are refused where a shorter one
would do. -/
lemma ascii_of_decode {bs : List Byte} {text : List Char} (h : decode bs = .ok text)
    (htext : ∀ c ∈ text, c.toNat < 0x80) : ∀ b ∈ bs, b.toNat < 0x80 := by
  induction bs using decode.induct generalizing text with
  | case1 => simp
  | case2 b bs hnone =>
    rw [decode] at h
    split at h <;> simp_all
  | case3 b bs n rest hsome ih =>
    rw [decode] at h
    split at h
    · simp_all
    · rename_i n' rest' heq
      obtain ⟨rfl, rfl⟩ : n = n' ∧ rest = rest' := by
        rw [hsome] at heq
        simpa using heq
      obtain ⟨tail, hdecode, hcons⟩ := exists_of_bind_eq_ok h
      obtain rfl : Char.ofNat n :: tail = text := Except.ok.inj hcons
      have hn := htext (Char.ofNat n) List.mem_cons_self
      rcases (codePoint_cases hsome).2 with ⟨hb, _, rfl⟩ | ⟨hlarge, hvalid⟩
      · intro c hc
        rcases List.mem_cons.mp hc with rfl | hc
        · exact hb
        · exact ih hdecode (fun d hd => htext d (List.mem_cons_of_mem _ hd)) c hc
      · rw [toNat_ofNat hvalid] at hn
        omega

lemma toNat_encode {c : Char} (h : c.toNat < 0x80) : (BitVec.ofNat 8 c.toNat).toNat = c.toNat := by
  rw [BitVec.toNat_ofNat, Nat.mod_eq_of_lt (by omega)]

/-- Decoding undoes encoding, on texts of ASCII characters. -/
lemma decode_encodeAscii {text : List Char} (h : ∀ c ∈ text, c.toNat < 0x80) :
    decode (encodeAscii text) = .ok text := by
  have hbytes : ∀ b ∈ encodeAscii text, b.toNat < 0x80 := by
    intro b hb
    obtain ⟨c, hc, rfl⟩ := List.mem_map.mp hb
    rw [toNat_encode (h c hc)]
    exact h c hc
  have hback : (encodeAscii text).map (fun b => Char.ofNat b.toNat) = text := by
    rw [encodeAscii, List.map_map, List.map_congr_left (g := id), List.map_id]
    intro c hc
    rw [Function.comp_apply, toNat_encode (h c hc), Char.ofNat_toNat, id]
  rw [decode_ascii hbytes, hback]

/-- An ASCII text is decoded from its encoding only, so bytes and text determine each other. -/
lemma decode_eq_ok_iff {bs : List Byte} {text : List Char} (h : ∀ c ∈ text, c.toNat < 0x80) :
    decode bs = .ok text ↔ encodeAscii text = bs := by
  constructor
  · intro hdecode
    have hbytes := ascii_of_decode hdecode h
    obtain rfl : (bs.map fun b => Char.ofNat b.toNat) = text := by
      rw [decode_ascii hbytes] at hdecode
      exact Except.ok.inj hdecode
    rw [encodeAscii, List.map_map, List.map_congr_left (g := id), List.map_id]
    intro b hb
    have hvalid : b.toNat.isValidChar := Or.inl (by have := hbytes b hb; omega)
    rw [Function.comp_apply, toNat_ofNat hvalid, BitVec.ofNat_toNat, BitVec.setWidth_eq, id]
  · rintro rfl
    exact decode_encodeAscii h

end Whuctf.Utf8
