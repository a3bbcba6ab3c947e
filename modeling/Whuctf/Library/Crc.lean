import Whuctf.Library.Memory

/-!
# Reflected cyclic redundancy checks

A register of any width is shifted right one bit at a time; when the bit shifted out is set, the
polynomial is added.  A byte is added to the register and shifted through by eight such steps.

Steps are linear over exclusive or, and a register whose low bits are clear only moves down.  So
eight steps of any register are the register moved down by a byte, plus eight steps of its low
byte alone (`bitStep_iterate_eight`): the reason a table with one word for each byte can replace
the bit loop.

With the top bit of the polynomial set, a step is a permutation of the registers.  Bytes that fill the
register reach it as one word, before all of their steps (`foldl_byteStep`), so any window of that
many bytes takes a checksum through every value exactly once (`existsUnique_window`).
-/

namespace Whuctf.Crc

variable {w : ℕ}

/-! ## One bit

The step is linear because whether the polynomial is added depends on one bit of the register, and that
bit of a sum is the sum of the bits. -/

/-- Shift one bit out of the register and add the polynomial when it is set. -/
def bitStep (poly v : BitVec w) : BitVec w :=
  if v.getLsbD 0 then (v >>> 1) ^^^ poly else v >>> 1

lemma bitStep_of_clear (poly : BitVec w) {v : BitVec w} (h : v.getLsbD 0 = false) :
    bitStep poly v = v >>> 1 := by
  simp [bitStep, h]

/-- A bit step is linear over exclusive or, so the register for a sum of inputs is the sum of the
registers. -/
lemma bitStep_xor (poly u v : BitVec w) :
    bitStep poly (u ^^^ v) = bitStep poly u ^^^ bitStep poly v := by
  apply BitVec.eq_of_getLsbD_eq
  intro i hi
  simp only [bitStep, BitVec.getLsbD_xor]
  cases u.getLsbD 0 <;> cases v.getLsbD 0 <;> simp <;> grind

lemma bitStep_iterate_xor (poly u v : BitVec w) (n : ℕ) :
    (bitStep poly)^[n] (u ^^^ v) = (bitStep poly)^[n] u ^^^ (bitStep poly)^[n] v := by
  induction n generalizing u v with
  | zero => rfl
  | succ n ih =>
      rw [Function.iterate_succ_apply, bitStep_xor, ih]
      rfl

/-- A register whose `n` low bits are clear only moves down in `n` steps. -/
lemma bitStep_iterate_of_clear (poly v : BitVec w) (n : ℕ)
    (h : ∀ i < n, v.getLsbD i = false) : (bitStep poly)^[n] v = v >>> n := by
  induction n with
  | zero => simp
  | succ n ih =>
      have hlow : (v >>> n).getLsbD 0 = false := by simpa using h n (by omega)
      rw [Function.iterate_succ_apply', ih fun i hi => h i (by omega),
        bitStep_of_clear poly hlow, BitVec.shiftRight_add]

/-! ## One byte -/

/-- The low byte of the register, as a register of its own. -/
def lowByte (v : BitVec w) : BitVec w := (v.setWidth 8).setWidth w

lemma getLsbD_lowByte (v : BitVec w) (i : ℕ) :
    (lowByte v).getLsbD i = (decide (i < 8) && v.getLsbD i) := by
  simp only [lowByte, BitVec.getLsbD_setWidth]
  by_cases h : i < w
  · simp [h]
  · simp [h, BitVec.getLsbD_of_ge v i (by omega)]

/-- Eight steps of a register are the register moved down a byte, plus eight steps of its low
byte. -/
lemma bitStep_iterate_eight (poly v : BitVec w) :
    (bitStep poly)^[8] v = (v >>> 8) ^^^ (bitStep poly)^[8] (lowByte v) := by
  have hsplit : v = (v ^^^ lowByte v) ^^^ lowByte v := by
    rw [BitVec.xor_assoc, BitVec.xor_self, BitVec.xor_zero]
  have hclear : ∀ i < 8, (v ^^^ lowByte v).getLsbD i = false := by
    intro i hi
    simp [getLsbD_lowByte, hi]
  have hdown : (v ^^^ lowByte v) >>> 8 = v >>> 8 := by
    apply BitVec.eq_of_getLsbD_eq
    intro i _
    simp [getLsbD_lowByte]
  calc (bitStep poly)^[8] v
      = (bitStep poly)^[8] ((v ^^^ lowByte v) ^^^ lowByte v) := by rw [← hsplit]
    _ = (v ^^^ lowByte v) >>> 8 ^^^ (bitStep poly)^[8] (lowByte v) := by
        rw [bitStep_iterate_xor, bitStep_iterate_of_clear poly _ 8 hclear]
    _ = (v >>> 8) ^^^ (bitStep poly)^[8] (lowByte v) := by rw [hdown]

/-- Add a byte to the register and shift it through. -/
def byteStep (poly v : BitVec w) (b : Byte) : BitVec w :=
  (bitStep poly)^[8] (v ^^^ b.setWidth w)

/-- A byte added to the register leaves nothing behind above the low byte. -/
lemma byteStep_eq (poly v : BitVec w) (b : Byte) :
    byteStep poly v b =
      (v >>> 8) ^^^ (bitStep poly)^[8] ((v.setWidth 8 ^^^ b).setWidth w) := by
  have hdown : (v ^^^ b.setWidth w) >>> 8 = v >>> 8 := by
    apply BitVec.eq_of_getLsbD_eq
    intro i _
    simp
  have hlow : lowByte (v ^^^ b.setWidth w) = (v.setWidth 8 ^^^ b).setWidth w := by
    apply BitVec.eq_of_getLsbD_eq
    intro i hi
    simp only [getLsbD_lowByte, BitVec.getLsbD_xor, BitVec.getLsbD_setWidth, hi, decide_true,
      Bool.true_and]
    by_cases h : i < 8
    · simp [h]
    · simp [h, BitVec.getLsbD_of_ge b i (by omega)]
  rw [byteStep, bitStep_iterate_eight, hdown, hlow]

/-! ## A run of bytes -/

/-- The check value of a run of bytes: the register starts at all ones and the result is
complemented. -/
def checksum (poly : BitVec w) (bytes : List Byte) : BitVec w :=
  ~~~(bytes.foldl (byteStep poly) (BitVec.allOnes w))

/-! ## Steps are permutations

A linear map is one to one when only zero goes to zero, and on a finite type it is then onto as well.
The top bit of the polynomial is what keeps a register that is not zero from going to zero. -/

section Bijective

variable {poly : BitVec w}

/-- The bit shifted out is seen in the top bit of the polynomial. -/
lemma eq_zero_of_bitStep_eq_zero (hpoly : poly.msb = true) {v : BitVec w} (h : bitStep poly v = 0#w) :
    v = 0#w := by
  have hbits : ∀ i, (bitStep poly v).getLsbD i = false := by
    intro i
    rw [h, BitVec.getLsbD_zero]
  have hlow : v.getLsbD 0 = false := by
    by_contra hset
    have htop := hbits (w - 1)
    have hover : v.getLsbD (1 + (w - 1)) = false := BitVec.getLsbD_of_ge v _ (by omega)
    rw [BitVec.msb_eq_getLsbD_last] at hpoly
    rw [bitStep, if_pos (by simpa using hset), BitVec.getLsbD_xor, BitVec.getLsbD_ushiftRight,
      hover, hpoly] at htop
    cases htop
  apply BitVec.eq_of_getLsbD_eq
  intro i _
  rw [BitVec.getLsbD_zero]
  cases i with
  | zero => exact hlow
  | succ i =>
      have hnext := hbits i
      rwa [bitStep_of_clear poly hlow, BitVec.getLsbD_ushiftRight, Nat.add_comm] at hnext

lemma bitStep_injective (hpoly : poly.msb = true) : Function.Injective (bitStep poly) := by
  intro u v h
  have hzero : bitStep poly (u ^^^ v) = 0#w := by rw [bitStep_xor, h, BitVec.xor_self]
  exact BitVec.xor_eq_zero_iff.mp (eq_zero_of_bitStep_eq_zero hpoly hzero)

lemma bitStep_bijective (hpoly : poly.msb = true) : Function.Bijective (bitStep poly) := by
  have hfinite : Finite (BitVec w) := Finite.of_equiv _ BitVec.equivFin.symm.toEquiv
  exact Finite.injective_iff_bijective.mp (bitStep_injective hpoly)

lemma xor_bijective (x : BitVec w) : Function.Bijective fun v : BitVec w => v ^^^ x := by
  apply Function.Involutive.bijective
  intro v
  show v ^^^ x ^^^ x = v
  rw [BitVec.xor_assoc, BitVec.xor_self, BitVec.xor_zero]

lemma byteStep_bijective (hpoly : poly.msb = true) (b : Byte) :
    Function.Bijective fun v => byteStep poly v b :=
  ((bitStep_bijective hpoly).iterate 8).comp (xor_bijective (b.setWidth w))

/-- Bytes behind a window permute the registers that leave it. -/
lemma foldl_byteStep_bijective (hpoly : poly.msb = true) (bytes : List Byte) :
    Function.Bijective fun v => bytes.foldl (byteStep poly) v := by
  induction bytes with
  | nil => exact Function.bijective_id
  | cons b bytes ih => exact ih.comp (byteStep_bijective hpoly b)

end Bijective

/-! ## Bytes as a word -/

/-- The register that holds a run of bytes, the first in the low bits. -/
def word : List Byte → BitVec w
  | [] => 0#w
  | b :: bytes => b.setWidth w ^^^ (word bytes <<< 8)

lemma getLsbD_word_of_ge {bytes : List Byte} {i : ℕ} (h : 8 * bytes.length ≤ i) :
    (word bytes : BitVec w).getLsbD i = false := by
  induction bytes generalizing i with
  | nil => simp [word]
  | cons b bytes ih =>
      rw [List.length_cons] at h
      have hb : b.getLsbD i = false := BitVec.getLsbD_of_ge b i (by omega)
      simp [word, hb, ih (i := i - 8) (by omega)]

/-- Below the top of the register, the word moved up a byte moves down again in eight steps. -/
lemma bitStep_iterate_word (poly : BitVec w) {bytes : List Byte} (h : 8 * bytes.length + 8 ≤ w) :
    (bitStep poly)^[8] (word bytes <<< 8) = word bytes := by
  rw [bitStep_iterate_of_clear poly _ 8 (by intro i hi; simp [hi])]
  apply BitVec.eq_of_getLsbD_eq
  intro i hi
  by_cases hin : 8 + i < w
  · simp [hin, BitVec.getLsbD_eq_getElem hi]
  · have hclear : (word bytes : BitVec w).getLsbD i = false := getLsbD_word_of_ge (by omega)
    simp [hin, hclear]

/-- Bytes that fit into the register may be added at once, before all their steps. -/
lemma foldl_byteStep (poly : BitVec w) {bytes : List Byte} (h : 8 * bytes.length ≤ w) (v : BitVec w) :
    bytes.foldl (byteStep poly) v = (bitStep poly)^[8 * bytes.length] (v ^^^ word bytes) := by
  induction bytes generalizing v with
  | nil => simp [word]
  | cons b bytes ih =>
      rw [List.length_cons] at h
      have hfirst : byteStep poly v b ^^^ word bytes = (bitStep poly)^[8] (v ^^^ word (b :: bytes)) := by
        rw [word, ← BitVec.xor_assoc, bitStep_iterate_xor, bitStep_iterate_word poly (by omega)]
        rfl
      rw [List.foldl_cons, ih (by omega), hfirst, List.length_cons, Nat.mul_succ,
        Function.iterate_add_apply]

lemma word_cons_shift {b : Byte} {bytes : List Byte} (h : 8 * bytes.length + 8 ≤ w) :
    (word (b :: bytes) : BitVec w) >>> 8 = word bytes := by
  apply BitVec.eq_of_getLsbD_eq
  intro i hi
  by_cases hin : 8 + i < w
  · simp [word, hin, BitVec.getLsbD_eq_getElem hi]
  · have hclear : (word bytes : BitVec w).getLsbD i = false := getLsbD_word_of_ge (by omega)
    simp [word, hin, hclear]

lemma setWidth_word_cons {b : Byte} {bytes : List Byte} (h : 8 ≤ w) :
    (word (b :: bytes) : BitVec w).setWidth 8 = b := by
  apply BitVec.eq_of_getLsbD_eq
  intro i hi
  have hin : i < w := by omega
  simp [word, hi, hin]

/-- A register has one spelling in as many bytes as reach its highest set bit. -/
lemma existsUnique_word {n : ℕ} (hn : 8 * n ≤ w) {x : BitVec w}
    (hx : ∀ i, 8 * n ≤ i → x.getLsbD i = false) :
    ∃! bytes : List Byte, bytes.length = n ∧ word bytes = x := by
  induction n generalizing x with
  | zero =>
      have hzero : x = 0#w := by
        apply BitVec.eq_of_getLsbD_eq
        intro i _
        rw [hx i (by omega), BitVec.getLsbD_zero]
      refine ⟨[], ⟨rfl, hzero.symm⟩, ?_⟩
      rintro bytes ⟨hlength, -⟩
      exact List.length_eq_zero_iff.mp hlength
  | succ n ih =>
      have hrest : ∀ i, 8 * n ≤ i → (x >>> 8).getLsbD i = false := by
        intro i hi
        rw [BitVec.getLsbD_ushiftRight]
        exact hx _ (by omega)
      obtain ⟨bytes, ⟨hlength, hword⟩, hunique⟩ := ih (by omega) hrest
      refine ⟨x.setWidth 8 :: bytes, ⟨by rw [List.length_cons, hlength], ?_⟩, ?_⟩
      · apply BitVec.eq_of_getLsbD_eq
        intro i hi
        rw [word, hword]
        by_cases hlow : i < 8
        · simp [hlow, hi]
        · have hback : 8 + (i - 8) = i := by omega
          simp [hlow, hi, hback]
      · rintro bytes' ⟨hlength', hword'⟩
        cases bytes' with
        | nil => simp at hlength'
        | cons b others =>
            rw [List.length_cons] at hlength'
            have hothers : others = bytes := by
              apply hunique
              exact ⟨by omega, by rw [← hword', word_cons_shift (by omega)]⟩
            have hb : b = x.setWidth 8 := by rw [← hword', setWidth_word_cons (by omega)]
            rw [hothers, hb]

/-- **Windows.**  A window of as many bytes as the register holds takes the checksum through every
value exactly once. -/
theorem existsUnique_window {poly : BitVec w} (hpoly : poly.msb = true) {n : ℕ} (hn : 8 * n = w)
    (before behind : List Byte) (value : BitVec w) :
    ∃! window : List Byte, window.length = n ∧
      checksum poly (before ++ window ++ behind) = value := by
  have hreach : Function.Bijective fun x : BitVec w =>
      ~~~(behind.foldl (byteStep poly)
        ((bitStep poly)^[8 * n] (before.foldl (byteStep poly) (BitVec.allOnes w) ^^^ x))) := by
    have hnot : Function.Bijective fun v : BitVec w => ~~~v :=
      Function.Involutive.bijective fun v => BitVec.not_not
    have hxor : Function.Bijective fun x : BitVec w =>
        before.foldl (byteStep poly) (BitVec.allOnes w) ^^^ x := by
      simpa only [BitVec.xor_comm] using xor_bijective (before.foldl (byteStep poly) (BitVec.allOnes w))
    exact hnot.comp ((foldl_byteStep_bijective hpoly behind).comp
      (((bitStep_bijective hpoly).iterate (8 * n)).comp hxor))
  have hchecksum : ∀ window : List Byte, window.length = n →
      checksum poly (before ++ window ++ behind) = ~~~(behind.foldl (byteStep poly)
        ((bitStep poly)^[8 * n]
          (before.foldl (byteStep poly) (BitVec.allOnes w) ^^^ word window))) := by
    intro window hlength
    have hadded := @foldl_byteStep w poly window (by omega)
    rw [checksum, List.foldl_append, List.foldl_append, hadded, hlength]
  obtain ⟨x, hx, hunique⟩ := hreach.existsUnique value
  obtain ⟨window, ⟨hlength, hword⟩, hspelling⟩ := existsUnique_word (x := x) (n := n) (by omega)
    fun i hi => BitVec.getLsbD_of_ge x i (by omega)
  refine ⟨window, ⟨hlength, ?_⟩, ?_⟩
  · rw [hchecksum window hlength, hword]
    exact hx
  · rintro window' ⟨hlength', hvalue⟩
    apply hspelling
    refine ⟨hlength', hunique _ ?_⟩
    rw [hchecksum window' hlength'] at hvalue
    exact hvalue

end Whuctf.Crc
