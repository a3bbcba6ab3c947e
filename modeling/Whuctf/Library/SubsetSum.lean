import Mathlib.Algebra.BigOperators.Fin
import Mathlib.Algebra.BigOperators.Group.List.Basic
import Mathlib.Algebra.Order.BigOperators.Group.List
import Mathlib.Algebra.Order.Group.Nat
import Mathlib.Data.List.Induction
import Mathlib.Data.Nat.ModEq
import Mathlib.Tactic.Ring

/-!
# Subset sums of superincreasing weights

A list of weights is superincreasing when each exceeds the sum of those before it.  The greedy
decoder walks over the weights from the last to the first and subtracts each one that still fits.
Whatever the weights, the bits it finds sum to at most what it was given; for superincreasing
weights it finds the bits of every subset sum.  Hence a subset sum that was first reduced by a modulus
is decoded rightly exactly when the reduction did nothing.

That no two subsets have one sum (`eq_of_total_eq`) follows from this, as the decoder is given nothing
but the sum.
-/

namespace Whuctf.SubsetSum

/-- Each weight exceeds the sum of the weights before it. -/
def Superincreasing (ws : List ℕ) : Prop :=
  ∀ i (h : i < ws.length), (ws.take i).sum < ws[i]

/-- The sum of the weights chosen by the bits; where one list is longer, its end is left out. -/
def total (bits : List Bool) (ws : List ℕ) : ℕ :=
  (List.zipWith (fun b w => b.toNat * w) bits ws).sum

/-- One step of the decoder, on what remains and the bits found so far. -/
def greedyStep (w : ℕ) (state : ℕ × List Bool) : ℕ × List Bool :=
  if w ≤ state.1 then (state.1 - w, true :: state.2) else (state.1, false :: state.2)

/-- The decoder: what remains at the end, and the bits. -/
def greedy (ws : List ℕ) (m : ℕ) : ℕ × List Bool := ws.foldr greedyStep (m, [])

section Weights

variable {ws : List ℕ}

lemma superincreasing_nil : Superincreasing [] := by
  intro i h
  simp at h

lemma superincreasing_concat {w : ℕ} :
    Superincreasing (ws ++ [w]) ↔ Superincreasing ws ∧ ws.sum < w := by
  constructor
  · intro h
    constructor
    · intro i hi
      have hlonger := h i (by simp; omega)
      rwa [List.take_append_of_le_length hi.le, List.getElem_append_left hi] at hlonger
    · have hlast := h ws.length (by simp)
      simpa using hlast
  · rintro ⟨hws, hlast⟩ i hi
    by_cases hlt : i < ws.length
    · rw [List.take_append_of_le_length hlt.le, List.getElem_append_left hlt]
      exact hws i hlt
    · obtain rfl : i = ws.length := by simp at hi; omega
      simpa using hlast

lemma total_concat {bits : List Bool} (h : bits.length = ws.length) (b : Bool) (w : ℕ) :
    total (bits ++ [b]) (ws ++ [w]) = total bits ws + b.toNat * w := by
  simp [total, List.zipWith_append h]

lemma total_cons (b : Bool) (bits : List Bool) (w : ℕ) :
    total (b :: bits) (w :: ws) = b.toNat * w + total bits ws := by
  simp [total]

lemma total_le_sum {bits : List Bool} : total bits ws ≤ ws.sum := by
  induction ws generalizing bits with
  | nil => simp [total]
  | cons w ws ih =>
    cases bits with
    | nil => simp [total]
    | cons b bits =>
      have hrest : total bits ws ≤ ws.sum := ih
      rw [total_cons, List.sum_cons]
      cases b <;> simp <;> omega

/-- A subset sum, index by index, when there is a bit for each of the weights. -/
lemma total_ofFn (ws : List ℕ) (f : Fin ws.length → Bool) :
    total (List.ofFn f) ws = ∑ i, (f i).toNat * ws.get i := by
  induction ws with
  | nil => rfl
  | cons w ws ih =>
    rw [List.ofFn_succ, total_cons, ih]
    exact (Fin.sum_univ_succ fun i => (f i).toNat * (w :: ws).get i).symm

/-- Of positive weights only the empty subset sums to zero. -/
lemma eq_false_of_total_eq_zero {bits : List Bool} (hws : ∀ w ∈ ws, 0 < w)
    (hbits : bits.length = ws.length) (h : total bits ws = 0) : ∀ b ∈ bits, b = false := by
  induction ws generalizing bits with
  | nil =>
    obtain rfl : bits = [] := List.length_eq_zero_iff.mp hbits
    exact nofun
  | cons w ws ih =>
    obtain ⟨hw, hrest⟩ := List.forall_mem_cons.mp hws
    cases bits with
    | nil => exact nofun
    | cons b bits =>
      rw [total_cons, Nat.add_eq_zero_iff] at h
      have hb : b = false := by
        cases b
        · rfl
        · rw [Bool.toNat_true, one_mul] at h
          omega
      exact List.forall_mem_cons.mpr ⟨hb, ih hrest (Nat.succ.inj hbits) h.2⟩

lemma total_replicate_true : total (List.replicate ws.length true) ws = ws.sum := by
  induction ws with
  | nil => rfl
  | cons w ws ih =>
    rw [List.length_cons, List.replicate_succ, total_cons, ih, List.sum_cons, Bool.toNat_true, one_mul]

/-- All subset sums lie below a bound exactly when the sum of all weights does. -/
lemma forall_total_lt_iff {q : ℕ} :
    (∀ bits : List Bool, bits.length = ws.length → total bits ws < q) ↔ ws.sum < q := by
  constructor
  · intro h
    have hall := h (List.replicate ws.length true) List.length_replicate
    rwa [total_replicate_true] at hall
  · intro h bits _
    exact total_le_sum.trans_lt h

lemma pos_of_mem (hws : Superincreasing ws) {w : ℕ} (hw : w ∈ ws) : 0 < w := by
  obtain ⟨i, hi, rfl⟩ := List.getElem_of_mem hw
  exact (Nat.zero_le _).trans_lt (hws i hi)

lemma getLast_pos (hws : Superincreasing ws) (hne : ws ≠ []) : 0 < ws.getLast hne := by
  have hlength : 0 < ws.length := List.length_pos_of_ne_nil hne
  have hlast := hws (ws.length - 1) (by omega)
  rw [List.getLast_eq_getElem]
  omega

end Weights

section Greedy

/-- The decoder chooses weights that sum to what it has subtracted. -/
lemma foldr_greedyStep (ws : List ℕ) (m : ℕ) (tail : List Bool) :
    ∃ bits, bits.length = ws.length ∧ (ws.foldr greedyStep (m, tail)).2 = bits ++ tail ∧
      total bits ws ≤ m := by
  induction ws using List.reverseRecOn generalizing m tail with
  | nil => exact ⟨[], rfl, rfl, by simp [total]⟩
  | append_singleton ws w ih =>
    rw [List.foldr_append, List.foldr_cons, List.foldr_nil]
    by_cases hfits : w ≤ m
    · obtain ⟨bits, hlength, hbits, hle⟩ := ih (m - w) (true :: tail)
      refine ⟨bits ++ [true], by simp [hlength], ?_, ?_⟩
      · simpa [greedyStep, hfits] using hbits
      · rw [total_concat hlength, Bool.toNat_true, one_mul]
        omega
    · obtain ⟨bits, hlength, hbits, hle⟩ := ih m (false :: tail)
      refine ⟨bits ++ [false], by simp [hlength], ?_, ?_⟩
      · simpa [greedyStep, hfits] using hbits
      · rw [total_concat hlength, Bool.toNat_false, zero_mul]
        exact hle

lemma total_greedy_le (ws : List ℕ) (m : ℕ) : total (greedy ws m).2 ws ≤ m := by
  obtain ⟨bits, _, hbits, hle⟩ := foldr_greedyStep ws m []
  rw [greedy, hbits, List.append_nil]
  exact hle

/-- A subset sum of superincreasing weights is decoded to its bits. -/
lemma foldr_greedyStep_total {ws : List ℕ} (hws : Superincreasing ws) {bits : List Bool}
    (hbits : bits.length = ws.length) (tail : List Bool) :
    ws.foldr greedyStep (total bits ws, tail) = (0, bits ++ tail) := by
  induction ws using List.reverseRecOn generalizing bits tail with
  | nil =>
    obtain rfl : bits = [] := List.length_eq_zero_iff.mp hbits
    rfl
  | append_singleton ws w ih =>
    obtain ⟨hfirst, hlast⟩ := superincreasing_concat.mp hws
    rcases List.eq_nil_or_concat bits with rfl | ⟨first, b, rfl⟩
    · simp at hbits
    · have hlength : first.length = ws.length := by simpa using hbits
      have hle : total first ws ≤ ws.sum := total_le_sum
      rw [List.foldr_append, List.foldr_cons, List.foldr_nil, List.concat_eq_append,
        total_concat hlength]
      have hstep : greedyStep w (total first ws + b.toNat * w, tail) = (total first ws, b :: tail) := by
        cases b
        · have hsmall : ¬w ≤ total first ws := by omega
          simp [greedyStep, hsmall]
        · simp [greedyStep]
      rw [hstep, ih hfirst hlength, List.append_assoc]
      rfl

lemma greedy_total {ws : List ℕ} (hws : Superincreasing ws) {bits : List Bool}
    (hbits : bits.length = ws.length) : (greedy ws (total bits ws)).2 = bits := by
  rw [greedy, foldr_greedyStep_total hws hbits, List.append_nil]

/-- Superincreasing weights have no two subsets of one sum, since the largest weight of a sum is
determined by it. -/
lemma eq_of_total_eq {ws : List ℕ} (hws : Superincreasing ws) {bits others : List Bool}
    (hbits : bits.length = ws.length) (hothers : others.length = ws.length)
    (h : total bits ws = total others ws) : bits = others := by
  rw [← greedy_total hws hbits, h, greedy_total hws hothers]

/-- After a reduction modulo `q` the bits are found exactly when the sum was below `q`. -/
theorem greedy_mod_iff {ws : List ℕ} (hws : Superincreasing ws) {bits : List Bool}
    (hbits : bits.length = ws.length) {q : ℕ} (hq : 0 < q) :
    (greedy ws (total bits ws % q)).2 = bits ↔ total bits ws < q := by
  constructor
  · intro hfound
    have hle := total_greedy_le ws (total bits ws % q)
    rw [hfound] at hle
    exact hle.trans_lt (Nat.mod_lt _ hq)
  · intro hlt
    rw [Nat.mod_eq_of_lt hlt]
    exact greedy_total hws hbits

end Greedy

/-! ## Masked weights

A mask multiplies every weight by one factor modulo a number.  It is taken off again by an inverse of
the factor, and what was a subset sum of the masked weights is one of the weights, up to the modulus. -/

lemma total_map_modEq (bits : List Bool) (ws : List ℕ) (q r : ℕ) :
    total bits (ws.map fun w => r * w % q) ≡ r * total bits ws [MOD q] := by
  induction ws generalizing bits with
  | nil => simp [total, Nat.ModEq]
  | cons w ws ih =>
    cases bits with
    | nil => simp [total, Nat.ModEq]
    | cons b bits =>
      have hhead : b.toNat * (r * w % q) ≡ r * (b.toNat * w) [MOD q] := by
        rw [mul_left_comm]
        exact (Nat.mod_modEq (r * w) q).mul_left _
      rw [List.map_cons, total_cons, total_cons, mul_add]
      exact hhead.add (ih bits)

/-- An inverse of the multiplier takes the mask off, up to the modulus. -/
lemma total_map_mul_inverse (bits : List Bool) (ws : List ℕ) {q r s : ℕ} (hinv : r * s % q = 1 % q) :
    total bits (ws.map fun w => r * w % q) * s % q = total bits ws % q := by
  have hmask := (total_map_modEq bits ws q r).mul_right s
  have hcancel : r * total bits ws * s ≡ total bits ws [MOD q] := by
    calc r * total bits ws * s = r * s * total bits ws := by ring
      _ ≡ 1 * total bits ws [MOD q] := Nat.ModEq.mul_right _ hinv
      _ = total bits ws := one_mul _
  exact hmask.trans hcancel

/-- Nor have they under a mask whose modulus exceeds their sum. -/
lemma eq_of_total_map_eq {ws : List ℕ} (hws : Superincreasing ws) {q r : ℕ} (hq : 1 < q)
    (hr : Nat.gcd r q = 1) (hsum : ws.sum < q) {bits others : List Bool}
    (hbits : bits.length = ws.length) (hothers : others.length = ws.length)
    (h : total bits (ws.map fun w => r * w % q) = total others (ws.map fun w => r * w % q)) :
    bits = others := by
  obtain ⟨s, -, hs⟩ := Nat.exists_mul_mod_eq_one_of_coprime hr hq
  have hinv : r * s % q = 1 % q := by rw [hs, Nat.mod_eq_of_lt hq]
  have hmask := total_map_mul_inverse bits ws hinv
  rw [h, total_map_mul_inverse others ws hinv, Nat.mod_eq_of_lt (total_le_sum.trans_lt hsum),
    Nat.mod_eq_of_lt (total_le_sum.trans_lt hsum)] at hmask
  exact eq_of_total_eq hws hbits hothers hmask.symm

/-- Under such a mask the weights stay positive, since none is divisible by the modulus. -/
lemma pos_of_mem_map {ws : List ℕ} (hws : Superincreasing ws) {q r : ℕ} (hr : Nat.gcd r q = 1)
    (hsum : ws.sum < q) : ∀ w ∈ ws.map fun w => r * w % q, 0 < w := by
  rintro _ hmem
  obtain ⟨w, hw, rfl⟩ := List.mem_map.mp hmem
  have hlt : w < q := (List.le_sum_of_mem hw).trans_lt hsum
  rw [Nat.pos_iff_ne_zero]
  intro hzero
  have hdvd : q ∣ w := Nat.Coprime.dvd_of_dvd_mul_left (Nat.Coprime.symm hr)
    (Nat.dvd_of_mod_eq_zero hzero)
  exact Nat.not_lt.mpr (Nat.le_of_dvd (pos_of_mem hws hw) hdvd) hlt

end Whuctf.SubsetSum
