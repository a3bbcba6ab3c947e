import Mathlib.Data.List.Forall2
import Whuctf.Case.Search

/-!
# The decodings of one group

A group of the upper-cased text determines the values of its characters up to the two cases of a
letter, whose values differ by 26.  In an encoded text over `S` all values but the last of a group lie
where a difference of 26 leads outside `S`, so only the case of the last character is left open, and a
group has at most two decodings, the padded groups included.

The bounds on the values come from the characters of `S`: the bytes of a text over `S` are those of
digits, letters and a few others, so the bits of the first three values are restricted, and the
difference of 26 between the two cases leads out of the restriction.
-/

namespace Whuctf.Case

open Python Base64

/-! ## The two cases of a value -/

/-- The value of the other case of a character: letters are 26 apart, and digits have no other case. -/
def otherCase (v : ℕ) : ℕ := if v < 26 then v + 26 else if v < 52 then v - 26 else v

/-- The values of the two cases of a character, which are all that its upper-casing leaves open. -/
def SameLetter (v w : ℕ) : Prop := w = v ∨ w = otherCase v

/-- `text.upper()` of an ASCII text, character by character. -/
def upper (text : List Char) : List Char := text.map Char.toUpper

@[simp] lemma upper_cons (c : Char) (text : List Char) :
    upper (c :: text) = c.toUpper :: upper text :=
  rfl

lemma otherCase_lt {v : ℕ} (hv : v < 64) : otherCase v < 64 := by
  unfold otherCase
  split_ifs <;> omega

lemma SameLetter.lt {v w : ℕ} (h : SameLetter v w) (hv : v < 64) : w < 64 := by
  rcases h with rfl | rfl
  · exact hv
  · exact otherCase_lt hv

/-- The two cases of an upper-cased character, in either order: one is the character it came from, the
other that of the other case. -/
lemma cases_upper_charOf : ∀ v < 64,
    ((charOf v).toUpper.toUpper = charOf v ∧ (charOf v).toUpper.toLower = charOf (otherCase v)) ∨
      ((charOf v).toUpper.toUpper = charOf (otherCase v) ∧ (charOf v).toUpper.toLower = charOf v) := by
  decide +kernel

lemma charOf_inj {v w : ℕ} (hv : v < 64) (hw : w < 64) (h : charOf v = charOf w) : v = w := by
  have hvalue := valueOf_charOf v hv
  rw [h, valueOf_charOf w hw] at hvalue
  exact (Option.some.inj hvalue).symm

lemma mem_cases_charOf {v : ℕ} (hv : v < 64) {d : Char} :
    (d = (charOf v).toUpper.toUpper ∨ d = (charOf v).toUpper.toLower) ↔
      ∃ w, SameLetter v w ∧ d = charOf w := by
  unfold SameLetter
  simp only [or_and_right, exists_or, exists_eq_left]
  rcases cases_upper_charOf v hv with ⟨h, h'⟩ | ⟨h, h'⟩
  · rw [h, h']
  · rw [h, h', or_comm]

lemma upper_charOf_eq_iff {v w : ℕ} (hv : v < 64) (hw : w < 64) :
    (charOf w).toUpper = (charOf v).toUpper ↔ SameLetter v w := by
  have hother : ∀ v < 64, (charOf (otherCase v)).toUpper = (charOf v).toUpper := by decide +kernel
  constructor
  · intro h
    have hself := (mem_cases_charOf hw).mpr ⟨w, Or.inl rfl, rfl⟩
    rw [h] at hself
    obtain ⟨w', hsame, heq⟩ := (mem_cases_charOf hv).mp hself
    exact charOf_inj hw (hsame.lt hv) heq ▸ hsame
  · rintro (rfl | rfl)
    · rfl
    · exact hother v hv

section Values

variable {vs : List ℕ}

lemma lt_of_sameLetters (hvs : ∀ v ∈ vs, v < 64) {ws : List ℕ}
    (h : List.Forall₂ SameLetter vs ws) : ∀ w ∈ ws, w < 64 := by
  induction h with
  | nil => simp
  | cons hvw _ ih =>
    rw [List.forall_mem_cons] at hvs ⊢
    exact ⟨hvw.lt hvs.1, ih hvs.2⟩

/-- Two lists of values are upper-cased alike exactly if they have the same letters. -/
lemma upper_map_charOf_eq_iff (hvs : ∀ v ∈ vs, v < 64) {ws : List ℕ} (hws : ∀ w ∈ ws, w < 64) :
    upper (ws.map charOf) = upper (vs.map charOf) ↔ List.Forall₂ SameLetter vs ws := by
  induction vs generalizing ws with
  | nil => simp [upper]
  | cons v vs ih =>
    cases ws with
    | nil => simp [upper]
    | cons w ws =>
      rw [List.forall_mem_cons] at hvs hws
      rw [List.forall₂_cons, ← ih hvs.2 hws.2, ← upper_charOf_eq_iff hvs.1 hws.1]
      simp [upper]

/-! ## The decodings of a group of values -/

lemma forall₂_upper_pads {k : ℕ} {t : List Char} :
    List.Forall₂ (fun c d => d = c.toUpper ∨ d = c.toLower) (upper (List.replicate k '=')) t ↔
      t = List.replicate k '=' := by
  induction k generalizing t with
  | zero => simp [upper]
  | succ k ih =>
    have hpad : ∀ d, (d = ('=').toUpper.toUpper ∨ d = ('=').toUpper.toLower) ↔ d = '=' := by
      intro d
      exact or_self_iff
    simp only [List.replicate_succ, upper_cons, List.forall₂_cons_left_iff, ih, hpad,
      exists_eq_left, exists_and_left]

/-- The combinations of an upper-cased group are the texts with the same letters. -/
lemma forall₂_upper_charOf (hvs : ∀ v ∈ vs, v < 64) {k : ℕ} {t : List Char} :
    List.Forall₂ (fun c d => d = c.toUpper ∨ d = c.toLower)
        (upper (vs.map charOf ++ List.replicate k '=')) t ↔
      ∃ ws, List.Forall₂ SameLetter vs ws ∧ t = ws.map charOf ++ List.replicate k '=' := by
  induction vs generalizing t with
  | nil =>
    simp only [List.map_nil, List.nil_append, List.forall₂_nil_left_iff, exists_eq_left]
    exact forall₂_upper_pads
  | cons v vs ih =>
    rw [List.forall_mem_cons] at hvs
    simp only [List.map_cons, List.cons_append, upper_cons, List.forall₂_cons_left_iff,
      mem_cases_charOf hvs.1, ih hvs.2]
    constructor
    · rintro ⟨_, _, ⟨w, hw, rfl⟩, ⟨ws, hws, rfl⟩, rfl⟩
      exact ⟨w :: ws, ⟨w, ws, hw, hws, rfl⟩, rfl⟩
    · rintro ⟨_, ⟨w, ws, hw, hws, rfl⟩, rfl⟩
      exact ⟨charOf w, _, ⟨w, hw, rfl⟩, ⟨ws, hws, rfl⟩, rfl⟩

lemma toNat_of_mem_S (c : Char) (hc : c ∈ S) : 48 ≤ c.toNat ∧ c.toNat < 128 := by
  have hall : (S.all fun c => 48 ≤ c.toNat ∧ c.toNat < 128) = true := by decide +kernel
  exact of_decide_eq_true (List.all_eq_true.mp hall c hc)

lemma tryCombo_eq_some_iff {t d : List Char} {bs : List Byte} (h : b64decode t = .ok bs) :
    tryCombo t = some d ↔ (∀ c ∈ d, c ∈ S) ∧ Utf8.encodeAscii d = bs := by
  have hascii : ∀ {d : List Char}, (∀ c ∈ d, c ∈ S) → ∀ c ∈ d, c.toNat < 0x80 :=
    fun hd c hc => (toNat_of_mem_S c (hd c hc)).2
  unfold tryCombo
  rw [h, ok_bind]
  constructor
  · intro hsome
    split at hsome
    · rename_i d' hdecode
      split_ifs at hsome with hall
      obtain rfl := Option.some.inj hsome
      have hd : ∀ c ∈ d', c ∈ S := by simpa using hall
      exact ⟨hd, (Utf8.decode_eq_ok_iff (hascii hd)).mp hdecode⟩
    · cases hsome
  · rintro ⟨hd, rfl⟩
    rw [Utf8.decode_encodeAscii (hascii hd)]
    exact if_pos (by simpa using hd)

lemma mem_decodings (hvs : ∀ v ∈ vs, v < 64) {k : ℕ}
    (hk : vs.length % 4 = 0 ∨ 2 ≤ vs.length % 4 ∧ 4 ≤ vs.length % 4 + k) {d : List Char} :
    d ∈ decodings (upper (vs.map charOf ++ List.replicate k '=')) ↔
      (∀ c ∈ d, c ∈ S) ∧ ∃ ws, List.Forall₂ SameLetter vs ws ∧ Utf8.encodeAscii d = bytesOf ws := by
  have hcombo : ∀ {ws}, List.Forall₂ SameLetter vs ws →
      (tryCombo (ws.map charOf ++ List.replicate k '=') = some d ↔
        (∀ c ∈ d, c ∈ S) ∧ Utf8.encodeAscii d = bytesOf ws) := by
    intro ws hws
    rw [hws.length_eq] at hk
    exact tryCombo_eq_some_iff (b64decode_map_charOf (lt_of_sameLetters hvs hws) hk)
  simp only [decodings, List.mem_filterMap, mem_stringCaseIterator, forall₂_upper_charOf hvs]
  constructor
  · rintro ⟨t, ⟨ws, hws, rfl⟩, ht⟩
    obtain ⟨hd, hbytes⟩ := (hcombo hws).mp ht
    exact ⟨hd, ws, hws, hbytes⟩
  · rintro ⟨hd, ws, hws, hbytes⟩
    exact ⟨_, ⟨ws, hws, rfl⟩, (hcombo hws).mpr ⟨hd, hbytes⟩⟩

end Values

/-! ## The groups of an encoded text

Each value of a group is made of bits of one byte or of two.  The lemmas take the values in turn and
show that the other case of the character would need a byte that is not in `S`. -/

/-- The upper-cased base64 encoding of a text, which is what the challenge gives away of the flag. -/
def upperBase64 (text : List Char) : List Char := upper (b64encode (Utf8.encodeAscii text))

/-- The values of the characters that encode a text, six bits each. -/
def values (text : List Char) : List ℕ := sextets (Utf8.encodeAscii text)

lemma lt_of_mem_values {text : List Char} : ∀ v ∈ values text, v < 64 :=
  fun _ hv => lt_of_mem_sextets hv

lemma mem_decodings_upperBase64 {t d : List Char} : d ∈ decodings (upperBase64 t) ↔
    (∀ c ∈ d, c ∈ S) ∧
      ∃ ws, List.Forall₂ SameLetter (values t) ws ∧ Utf8.encodeAscii d = bytesOf ws := by
  exact mem_decodings lt_of_mem_values (sextets_padded (by omega))

/-- A text over `S` is a decoding of its own encoding, since some choice of cases is the encoding
itself. -/
lemma self_mem_decodings {t : List Char} (ht : ∀ c ∈ t, c ∈ S) : t ∈ decodings (upperBase64 t) := by
  have hself : List.Forall₂ SameLetter (values t) (values t) :=
    List.forall₂_same.mpr fun _ _ => Or.inl rfl
  exact mem_decodings_upperBase64.mpr ⟨ht, values t, hself, (bytesOf_sextets _).symm⟩

section Bits

variable {A B C x w r : ℕ}

lemma SameLetter.cases {v w : ℕ} (h : SameLetter v w) :
    w = v ∨ v < 26 ∧ w = v + 26 ∨ 26 ≤ v ∧ w + 26 = v := by
  unfold SameLetter otherCase at h
  split_ifs at h <;> omega

/-- The first value of a group is at least 12 and less than 32. -/
lemma first_fixed (hA : 48 ≤ A ∧ A < 128) (h : SameLetter (A / 4) w)
    (hx : 48 ≤ x ∧ x < 128) (heq : x = w * 4 + r) (hr : r < 4) : w = A / 4 := by
  have hcases := h.cases
  omega

/-- The low four bits of the second value are those of a number between 3 and 7. -/
lemma second_fixed (hB : 48 ≤ B ∧ B < 128) (h : SameLetter (A % 4 * 16 + B / 16) w)
    (hx : 48 ≤ x ∧ x < 128) (heq : x = w % 16 * 16 + r) (hr : r < 16) :
    w = A % 4 * 16 + B / 16 := by
  have hcases := h.cases
  omega

/-- The low two bits of the third value are those of 0 or 1. -/
lemma third_fixed (hC : C < 128) (h : SameLetter (B % 16 * 4 + C / 64) w)
    (hx : x < 128) (heq : x = w % 4 * 64 + r) : w = B % 16 * 4 + C / 64 := by
  have hcases := h.cases
  omega

end Bits

section Texts

variable {a b c : Char} (ha : a ∈ S) (hb : b ∈ S) (hc : c ∈ S)

lemma toNat_encode_of_mem_S {c : Char} (hc : c ∈ S) : (BitVec.ofNat 8 c.toNat).toNat = c.toNat :=
  Utf8.toNat_encode (toNat_of_mem_S c hc).2

include ha in
lemma values_one : values [a] = [a.toNat / 4, a.toNat % 4 * 16] := by
  simp only [values, Utf8.encodeAscii, List.map_cons, List.map_nil, sextets,
    toNat_encode_of_mem_S ha]

include ha hb in
lemma values_two :
    values [a, b] = [a.toNat / 4, a.toNat % 4 * 16 + b.toNat / 16, b.toNat % 16 * 4] := by
  simp only [values, Utf8.encodeAscii, List.map_cons, List.map_nil, sextets,
    toNat_encode_of_mem_S ha, toNat_encode_of_mem_S hb]

include ha hb hc in
lemma values_three : values [a, b, c] = [a.toNat / 4, a.toNat % 4 * 16 + b.toNat / 16,
    b.toNat % 16 * 4 + c.toNat / 64, c.toNat % 64] := by
  simp only [values, Utf8.encodeAscii, List.map_cons, List.map_nil, sextets,
    toNat_encode_of_mem_S ha, toNat_encode_of_mem_S hb, toNat_encode_of_mem_S hc]

/-- The first character of a text over `S` whose bytes are known. -/
lemma exists_of_encode_cons {d : List Char} {n : ℕ} {bs : List Byte} (hd : ∀ c ∈ d, c ∈ S)
    (h : Utf8.encodeAscii d = BitVec.ofNat 8 n :: bs) (hn : n < 256) :
    ∃ x rest, d = x :: rest ∧ (48 ≤ x.toNat ∧ x.toNat < 128) ∧ x.toNat = n ∧
      (∀ c ∈ rest, c ∈ S) ∧ Utf8.encodeAscii rest = bs := by
  obtain ⟨x, rest, rfl, hx, hrest⟩ := List.map_eq_cons_iff.mp h
  rw [List.forall_mem_cons] at hd
  have hnat : x.toNat = n := by
    rw [← toNat_encode_of_mem_S hd.1, hx, BitVec.toNat_ofNat, Nat.mod_eq_of_lt hn]
  exact ⟨x, rest, rfl, toNat_of_mem_S x hd.1, hnat, hd.2, hrest⟩

lemma eq_ofNat {x : Char} {n : ℕ} (h : x.toNat = n) : x = Char.ofNat n := by
  rw [← h, Char.ofNat_toNat]

include ha in
lemma decodings_one {d : List Char} (hd : d ∈ decodings (upperBase64 [a])) :
    d = [a] ∨ d = [Char.ofNat (a.toNat / 4 * 4 + otherCase (a.toNat % 4 * 16) / 16)] := by
  obtain ⟨hS, ws, hws, hbytes⟩ := mem_decodings_upperBase64.mp hd
  rw [values_one ha] at hws
  rcases hws with _ | ⟨h₀, _ | ⟨h₁, _ | _⟩⟩
  rename_i w₀ w₁
  have hanat := toNat_of_mem_S a ha
  have hw₀ : w₀ < 64 := h₀.lt (by omega)
  have hw₁ : w₁ < 64 := h₁.lt (by omega)
  obtain ⟨x, _, rfl, hxnat, hx, _, hnil⟩ := exists_of_encode_cons hS hbytes (by omega)
  obtain rfl := List.map_eq_nil_iff.mp hnil
  obtain rfl := first_fixed hanat h₀ hxnat hx (by omega)
  rcases h₁ with rfl | rfl
  · left
    obtain rfl : x = a := Char.toNat_inj.mp (by omega)
    rfl
  · right
    rw [eq_ofNat hx]

include ha hb in
lemma decodings_two {d : List Char} (hd : d ∈ decodings (upperBase64 [a, b])) :
    d = [a, b] ∨ d = [a, Char.ofNat (b.toNat / 16 * 16 + otherCase (b.toNat % 16 * 4) / 4)] := by
  obtain ⟨hS, ws, hws, hbytes⟩ := mem_decodings_upperBase64.mp hd
  rw [values_two ha hb] at hws
  rcases hws with _ | ⟨h₀, _ | ⟨h₁, _ | ⟨h₂, _ | _⟩⟩⟩
  rename_i w₀ w₁ w₂
  have hanat := toNat_of_mem_S a ha
  have hbnat := toNat_of_mem_S b hb
  have hw₀ : w₀ < 64 := h₀.lt (by omega)
  have hw₁ : w₁ < 64 := h₁.lt (by omega)
  have hw₂ : w₂ < 64 := h₂.lt (by omega)
  obtain ⟨x, _, rfl, hxnat, hx, hS, hrest⟩ := exists_of_encode_cons hS hbytes (by omega)
  obtain ⟨y, _, rfl, hynat, hy, _, hnil⟩ := exists_of_encode_cons hS hrest (by omega)
  obtain rfl := List.map_eq_nil_iff.mp hnil
  obtain rfl := first_fixed hanat h₀ hxnat hx (by omega)
  obtain rfl := second_fixed hbnat h₁ hynat hy (by omega)
  obtain rfl : x = a := Char.toNat_inj.mp (by omega)
  rcases h₂ with rfl | rfl
  · left
    obtain rfl : y = b := Char.toNat_inj.mp (by omega)
    rfl
  · right
    have hhigh : (x.toNat % 4 * 16 + b.toNat / 16) % 16 = b.toNat / 16 := by omega
    rw [eq_ofNat hy, hhigh]

include ha hb hc in
lemma decodings_three {d : List Char} (hd : d ∈ decodings (upperBase64 [a, b, c])) :
    d = [a, b, c] ∨ d = [a, b, Char.ofNat (c.toNat / 64 * 64 + otherCase (c.toNat % 64))] := by
  obtain ⟨hS, ws, hws, hbytes⟩ := mem_decodings_upperBase64.mp hd
  rw [values_three ha hb hc] at hws
  rcases hws with _ | ⟨h₀, _ | ⟨h₁, _ | ⟨h₂, _ | ⟨h₃, _ | _⟩⟩⟩⟩
  rename_i w₀ w₁ w₂ w₃
  have hanat := toNat_of_mem_S a ha
  have hbnat := toNat_of_mem_S b hb
  have hcnat := toNat_of_mem_S c hc
  have hw₀ : w₀ < 64 := h₀.lt (by omega)
  have hw₁ : w₁ < 64 := h₁.lt (by omega)
  have hw₂ : w₂ < 64 := h₂.lt (by omega)
  have hw₃ : w₃ < 64 := h₃.lt (by omega)
  obtain ⟨x, _, rfl, hxnat, hx, hS, hrest⟩ := exists_of_encode_cons hS hbytes (by omega)
  obtain ⟨y, _, rfl, hynat, hy, hS, hlast⟩ := exists_of_encode_cons hS hrest (by omega)
  obtain ⟨z, _, rfl, hznat, hz, _, hnil⟩ := exists_of_encode_cons hS hlast (by omega)
  obtain rfl := List.map_eq_nil_iff.mp hnil
  obtain rfl := first_fixed hanat h₀ hxnat hx (by omega)
  obtain rfl := second_fixed hbnat h₁ hynat hy (by omega)
  obtain rfl := third_fixed hcnat.2 h₂ hznat.2 hz
  obtain rfl : x = a := Char.toNat_inj.mp (by omega)
  obtain rfl : y = b := Char.toNat_inj.mp (by omega)
  rcases h₃ with rfl | rfl
  · left
    obtain rfl : z = c := Char.toNat_inj.mp (by omega)
    rfl
  · right
    have hhigh : (y.toNat % 16 * 4 + c.toNat / 64) % 4 = c.toNat / 64 := by omega
    rw [eq_ofNat hz, hhigh]

end Texts

/-- Besides the text itself, a group of its encoding has at most one decoding: the one with the other
case of the last value. -/
lemma exists_other {t : List Char} (ht : ∀ c ∈ t, c ∈ S) (hpos : 0 < t.length)
    (hthree : t.length ≤ 3) :
    ∃ t', ∀ d ∈ decodings (upperBase64 t), d = t ∨ d = t' := by
  match t, hpos, hthree with
  | [a], _, _ =>
    simp only [List.forall_mem_cons] at ht
    exact ⟨_, fun _ => decodings_one ht.1⟩
  | [a, b], _, _ =>
    simp only [List.forall_mem_cons] at ht
    exact ⟨_, fun _ => decodings_two ht.1 ht.2.1⟩
  | [a, b, c], _, _ =>
    simp only [List.forall_mem_cons] at ht
    exact ⟨_, fun _ => decodings_three ht.1 ht.2.1 ht.2.2.1⟩

/-- The groups of an encoded text are those that the code handles. -/
theorem handled_upperBase64 (order : SetOrder) {t : List Char} (ht : ∀ c ∈ t, c ∈ S)
    (hpos : 0 < t.length) (hthree : t.length ≤ 3) : Handled order (upperBase64 t) := by
  obtain ⟨t', hother⟩ := exists_other ht hpos hthree
  have hself : t ∈ order.listSet (decodings (upperBase64 t)) :=
    (order.mem_listSet _ t).mpr (self_mem_decodings ht)
  have hpair : order.listSet (decodings (upperBase64 t)) ⊆ [t, t'] := by
    intro d hd
    simpa using hother d ((order.mem_listSet _ d).mp hd)
  constructor
  · exact List.length_pos_of_mem hself
  · exact (List.subperm_of_subset (order.nodup_listSet _) hpair).length_le

end Whuctf.Case
