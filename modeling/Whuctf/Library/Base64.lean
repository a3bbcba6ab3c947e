import Mathlib.Data.List.GetD
import Whuctf.Library.Python

/-!
# Base64 as Python has it

`b64encode`, and `b64decode` without validation: the decoder skips characters outside the alphabet,
and padding characters where they cannot end the data, and stops at the padding that completes a
group.  Texts of ASCII characters stand for the `bytes` objects that Python's functions take and
return.

The decoder ignores the bits of the last character that no byte takes, so it reads more texts than the
encoder writes; `bytesOf` says what it makes of any.  Decoding undoes encoding, also when the padding
has been replaced by any that is at least as long.
-/

namespace Whuctf.Base64

open Python

/-! ## Encoding

Groups of three bytes give four values of six bits, and a last group of one or two bytes gives two or
three.  Padding fills the text up to groups of four characters. -/

/-- The characters of the alphabet, in the order of their values. -/
def alphabet : List Char :=
  "ABCDEFGHIJKLMNOPQRSTUVWXYZabcdefghijklmnopqrstuvwxyz0123456789+/".toList

/-- The character of a value below 64; for any other value it is the padding character. -/
def charOf (v : ℕ) : Char := alphabet.getD v '='

/-- The values of the characters that encode a byte string. -/
def sextets : List Byte → List ℕ
  | [] => []
  | [a] => [a.toNat / 4, a.toNat % 4 * 16]
  | [a, b] => [a.toNat / 4, a.toNat % 4 * 16 + b.toNat / 16, b.toNat % 16 * 4]
  | a :: b :: c :: rest =>
      a.toNat / 4 :: (a.toNat % 4 * 16 + b.toNat / 16) :: (b.toNat % 16 * 4 + c.toNat / 64) ::
        c.toNat % 64 :: sextets rest

/-- The characters that encode a byte string, without the padding. -/
def encodeBare (bs : List Byte) : List Char := (sextets bs).map charOf

/-- `b64encode`: the characters of the byte string, and the padding that fills the last group of four. -/
def b64encode (bs : List Byte) : List Char :=
  encodeBare bs ++ List.replicate ((3 - bs.length % 3) % 3) '='

/-! ## Decoding

The decoder is a loop over the characters with a state of three counters, as in the C code behind the
Python function.  It fails when the text ends inside a group that no padding has completed. -/

/-- The value of a character of the alphabet, and nothing for the padding and other characters. -/
def valueOf (c : Char) : Option ℕ := alphabet.findIdx? (· == c)

/-- A byte in front of a result, when there is one. -/
def consByte (n : ℕ) (result : Except PyError (List Byte)) : Except PyError (List Byte) := do
  return BitVec.ofNat 8 n :: (← result)

/-- The loop of `binascii.a2b_base64`: `quadPos` counts the characters of the current group,
`leftchar` holds the bits of the last one that no byte has taken, `pads` counts padding characters. -/
def a2b : List Char → ℕ → ℕ → ℕ → Except PyError (List Byte)
  | [], quadPos, _, _ => if quadPos = 0 then .ok [] else .error .valueError
  | c :: rest, quadPos, leftchar, pads =>
      if c = '=' then
        if 2 ≤ quadPos then
          if 4 ≤ quadPos + (pads + 1) then .ok [] else a2b rest quadPos leftchar (pads + 1)
        else a2b rest quadPos leftchar pads
      else
        match valueOf c with
        | none => a2b rest quadPos leftchar pads
        | some v =>
            if quadPos = 0 then a2b rest 1 v 0
            else if quadPos = 1 then consByte (leftchar * 4 + v / 16) (a2b rest 2 (v % 16) 0)
            else if quadPos = 2 then consByte (leftchar * 16 + v / 4) (a2b rest 3 (v % 4) 0)
            else consByte (leftchar * 64 + v) (a2b rest 0 0 0)

/-- `b64decode`, with its default of no validation: the loop from its start, with no character of a
group seen and no padding. -/
def b64decode (text : List Char) : Except PyError (List Byte) := a2b text 0 0 0

/-- The bytes of a list of values; bits at its end that do not fill a byte are dropped. -/
def bytesOf : List ℕ → List Byte
  | v₀ :: v₁ :: v₂ :: v₃ :: rest =>
      BitVec.ofNat 8 (v₀ * 4 + v₁ / 16) :: BitVec.ofNat 8 (v₁ % 16 * 16 + v₂ / 4) ::
        BitVec.ofNat 8 (v₂ % 4 * 64 + v₃) :: bytesOf rest
  | [v₀, v₁, v₂] => [BitVec.ofNat 8 (v₀ * 4 + v₁ / 16), BitVec.ofNat 8 (v₁ % 16 * 16 + v₂ / 4)]
  | [v₀, v₁] => [BitVec.ofNat 8 (v₀ * 4 + v₁ / 16)]
  | _ => []

/-! ## The alphabet -/

lemma valueOf_charOf : ∀ v < 64, valueOf (charOf v) = some v := by decide +kernel

lemma charOf_ne_pad : ∀ v < 64, charOf v ≠ '=' := by decide +kernel

lemma lt_of_mem_sextets : ∀ {bs : List Byte} {v : ℕ}, v ∈ sextets bs → v < 64
  | [], _, hv => by simp [sextets] at hv
  | [a], v, hv => by
      have ha := a.isLt
      simp only [sextets, List.mem_cons, List.not_mem_nil, or_false] at hv
      omega
  | [a, b], v, hv => by
      have ha := a.isLt
      have hb := b.isLt
      simp only [sextets, List.mem_cons, List.not_mem_nil, or_false] at hv
      omega
  | a :: b :: c :: rest, v, hv => by
      have ha := a.isLt
      have hb := b.isLt
      have hc := c.isLt
      simp only [sextets, List.mem_cons] at hv
      rcases hv with rfl | rfl | rfl | rfl | hv
      · omega
      · omega
      · omega
      · omega
      · exact lt_of_mem_sextets hv

/-! ## The decoder on characters of the alphabet -/

section Decoder

variable {v : ℕ} (rest : List Char) (quadPos leftchar pads : ℕ)

lemma a2b_charOf (hv : v < 64) : a2b (charOf v :: rest) quadPos leftchar pads =
    if quadPos = 0 then a2b rest 1 v 0
    else if quadPos = 1 then consByte (leftchar * 4 + v / 16) (a2b rest 2 (v % 16) 0)
    else if quadPos = 2 then consByte (leftchar * 16 + v / 4) (a2b rest 3 (v % 4) 0)
    else consByte (leftchar * 64 + v) (a2b rest 0 0 0) := by
  rw [a2b, if_neg (charOf_ne_pad v hv), valueOf_charOf v hv]

lemma a2b_pad : a2b ('=' :: rest) quadPos leftchar pads =
    if 2 ≤ quadPos then
      if 4 ≤ quadPos + (pads + 1) then .ok [] else a2b rest quadPos leftchar (pads + 1)
    else a2b rest quadPos leftchar pads := by
  rw [a2b, if_pos rfl]

lemma a2b_first (hv : v < 64) : a2b (charOf v :: rest) 0 leftchar pads = a2b rest 1 v 0 :=
  a2b_charOf rest 0 leftchar pads hv

lemma a2b_second (hv : v < 64) : a2b (charOf v :: rest) 1 leftchar pads =
    consByte (leftchar * 4 + v / 16) (a2b rest 2 (v % 16) 0) :=
  a2b_charOf rest 1 leftchar pads hv

lemma a2b_third (hv : v < 64) : a2b (charOf v :: rest) 2 leftchar pads =
    consByte (leftchar * 16 + v / 4) (a2b rest 3 (v % 4) 0) :=
  a2b_charOf rest 2 leftchar pads hv

lemma a2b_fourth (hv : v < 64) : a2b (charOf v :: rest) 3 leftchar pads =
    consByte (leftchar * 64 + v) (a2b rest 0 0 0) :=
  a2b_charOf rest 3 leftchar pads hv

/-- Padding before the first character of a group is skipped. -/
lemma a2b_pads_skipped (k : ℕ) : a2b (List.replicate k '=') 0 leftchar pads = .ok [] := by
  induction k with
  | zero => rfl
  | succ k ih => rw [List.replicate_succ, a2b_pad, if_neg (by omega), ih]

lemma a2b_two_pads {k : ℕ} (hk : 2 ≤ k) : a2b (List.replicate k '=') 2 leftchar 0 = .ok [] := by
  obtain ⟨k, rfl⟩ := Nat.exists_eq_add_of_le' hk
  rw [List.replicate_succ, a2b_pad, if_pos (by omega), if_neg (by omega),
    List.replicate_succ, a2b_pad, if_pos (by omega), if_pos (by omega)]

lemma a2b_one_pad {k : ℕ} (hk : 1 ≤ k) : a2b (List.replicate k '=') 3 leftchar 0 = .ok [] := by
  obtain ⟨k, rfl⟩ := Nat.exists_eq_add_of_le' hk
  rw [List.replicate_succ, a2b_pad, if_pos (by omega), if_pos (by omega)]

end Decoder

lemma consByte_ok (n : ℕ) (bs : List Byte) :
    consByte n (.ok bs) = .ok (BitVec.ofNat 8 n :: bs) :=
  rfl

/-- What the decoder makes of a text whose padding is long enough. -/
lemma b64decode_map_charOf : ∀ {vs : List ℕ} {k : ℕ}, (∀ v ∈ vs, v < 64) →
    (vs.length % 4 = 0 ∨ 2 ≤ vs.length % 4 ∧ 4 ≤ vs.length % 4 + k) →
      b64decode (vs.map charOf ++ List.replicate k '=') = .ok (bytesOf vs)
  | [], k, _, _ => a2b_pads_skipped 0 0 k
  | [v₀], k, _, h => by simp at h
  | [v₀, v₁], k, hvs, h => by
      simp only [List.forall_mem_cons] at hvs
      simp only [b64decode, List.map_cons, List.map_nil, List.cons_append, List.nil_append]
      rw [a2b_first _ _ _ hvs.1, a2b_second _ _ _ hvs.2.1, a2b_two_pads _ (by simp at h; omega),
        consByte_ok]
      rfl
  | [v₀, v₁, v₂], k, hvs, h => by
      simp only [List.forall_mem_cons] at hvs
      simp only [b64decode, List.map_cons, List.map_nil, List.cons_append, List.nil_append]
      rw [a2b_first _ _ _ hvs.1, a2b_second _ _ _ hvs.2.1, a2b_third _ _ _ hvs.2.2.1,
        a2b_one_pad _ (by simp at h; omega), consByte_ok, consByte_ok]
      rfl
  | v₀ :: v₁ :: v₂ :: v₃ :: rest, k, hvs, h => by
      simp only [List.forall_mem_cons] at hvs
      have hrest : b64decode (rest.map charOf ++ List.replicate k '=') = .ok (bytesOf rest) :=
        b64decode_map_charOf hvs.2.2.2.2 (by simp only [List.length_cons] at h; omega)
      simp only [b64decode] at hrest
      simp only [b64decode, List.map_cons, List.cons_append]
      rw [a2b_first _ _ _ hvs.1, a2b_second _ _ _ hvs.2.1, a2b_third _ _ _ hvs.2.2.1,
        a2b_fourth _ _ _ hvs.2.2.2.1, hrest, consByte_ok, consByte_ok, consByte_ok]
      rfl

/-! ## Values and bytes

`sextets` cuts bytes into values and `bytesOf` puts them together again.  They are inverse to each
other up to the bits that fill the last value, and the length of one fixes that of the other. -/

section Values

lemma ofNat_eq {n : ℕ} {b : Byte} (h : n = b.toNat) : BitVec.ofNat 8 n = b := by
  rw [h, BitVec.ofNat_toNat, BitVec.setWidth_eq]

lemma bytesOf_sextets : ∀ bs : List Byte, bytesOf (sextets bs) = bs
  | [] => rfl
  | [a] => by
      have ha := a.isLt
      simp only [sextets, bytesOf]
      rw [ofNat_eq (b := a) (by omega)]
  | [a, b] => by
      have ha := a.isLt
      have hb := b.isLt
      simp only [sextets, bytesOf]
      rw [ofNat_eq (b := a) (by omega), ofNat_eq (b := b) (by omega)]
  | a :: b :: c :: rest => by
      have ha := a.isLt
      have hb := b.isLt
      have hc := c.isLt
      simp only [sextets, bytesOf]
      rw [ofNat_eq (b := a) (by omega), ofNat_eq (b := b) (by omega), ofNat_eq (b := c) (by omega),
        bytesOf_sextets rest]

/-- Whole groups of values are determined by their bytes: four values of six bits have the bits of
three bytes. -/
lemma sextets_bytesOf : ∀ {vs : List ℕ}, (∀ v ∈ vs, v < 64) → vs.length % 4 = 0 →
    sextets (bytesOf vs) = vs
  | [], _, _ => rfl
  | [_], _, h => by simp at h
  | [_, _], _, h => by simp at h
  | [_, _, _], _, h => by simp at h
  | v₀ :: v₁ :: v₂ :: v₃ :: rest, hvs, h => by
      simp only [List.forall_mem_cons] at hvs
      have hrest : sextets (bytesOf rest) = rest :=
        sextets_bytesOf hvs.2.2.2.2 (by simp only [List.length_cons] at h; omega)
      simp only [bytesOf, sextets, BitVec.toNat_ofNat, hrest, List.cons.injEq, and_true]
      omega

lemma length_sextets : ∀ bs : List Byte,
    (sextets bs).length = 4 * (bs.length / 3) + (bs.length % 3 + (bs.length % 3 + 2) / 3)
  | [] => rfl
  | [_] => by simp [sextets]
  | [_, _] => by simp [sextets]
  | a :: b :: c :: rest => by
      have hrest := length_sextets rest
      simp only [sextets, List.length_cons, hrest]
      omega

/-- With its padding, an encoding has four characters for each group of up to three bytes. -/
lemma length_sextets_add_pads (bs : List Byte) :
    (sextets bs).length + (3 - bs.length % 3) % 3 = 4 * ((bs.length + 2) / 3) := by
  have hlength := length_sextets bs
  have hresidue : bs.length % 3 = 0 ∨ bs.length % 3 = 1 ∨ bs.length % 3 = 2 := by omega
  rcases hresidue with hr | hr | hr <;> rw [hr] at hlength ⊢ <;> omega

/-- Any padding that is long enough completes the last group. -/
lemma sextets_padded {bs : List Byte} {k : ℕ} (h : bs.length % 3 = 0 ∨ 3 ≤ bs.length % 3 + k) :
    (sextets bs).length % 4 = 0 ∨
      2 ≤ (sextets bs).length % 4 ∧ 4 ≤ (sextets bs).length % 4 + k := by
  have hlength := length_sextets_add_pads bs
  omega

end Values

/-- Decoding undoes encoding, with any padding that is long enough. -/
lemma b64decode_encodeBare {bs : List Byte} {k : ℕ} (h : bs.length % 3 = 0 ∨ 3 ≤ bs.length % 3 + k) :
    b64decode (encodeBare bs ++ List.replicate k '=') = .ok bs := by
  rw [encodeBare, b64decode_map_charOf (fun _ hv => lt_of_mem_sextets hv) (sextets_padded h),
    bytesOf_sextets]

end Whuctf.Base64
