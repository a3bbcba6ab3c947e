import Mathlib.Algebra.Field.ZMod
import Mathlib.Algebra.Polynomial.Degree.Monomial
import Mathlib.Data.BitVec
import Mathlib.GroupTheory.OrderOfElement
import Mathlib.RingTheory.AdjoinRoot
import Mathlib.Tactic.ComputeDegree
import Mathlib.Tactic.LinearCombination
import Whuctf.Library.Memory

/-!
# The field of 256 elements on bytes

The field of AES is the ring of polynomials over two elements modulo `x⁸ + x⁴ + x³ + x + 1`.  A byte
stands for the polynomial with its bits as coefficients, so exclusive or is addition, and `xtime` is
multiplication by the root.  `ofByte` is a bijection onto the field (`byteEquiv`).  The modulus is
irreducible because the powers of `x + 1` are all the elements but zero (`exists_generator_pow`).

A multiplication on bytes by Horner's rule goes with the one of the field, so that inverses can be
checked by computation.  The generator is what makes irreducibility a finite computation as well: in a
ring of 256 elements in which 255 of them are powers of a unit, every element but zero is a unit.
-/

namespace Whuctf.Gf256

open Polynomial

/-! ## The ring

The quotient is a ring before its modulus is known to be irreducible, and the bijection with bytes is
needed to show that it is.  So everything up to the generator is proved in the ring. -/

/-- The modulus of AES, a polynomial over the field of two elements. -/
noncomputable def modulus : (ZMod 2)[X] := X ^ 8 + X ^ 4 + X ^ 3 + X + 1

/-- The field of AES, as a ring for now; that it is a field follows from the modulus being irreducible.
-/
abbrev GF : Type := AdjoinRoot modulus

/-- Bit `i` of a byte, as a coefficient of the polynomial that the byte stands for. -/
def coeffBit (b : Byte) (i : ℕ) : ZMod 2 := if b.getLsbD i then 1 else 0

/-- The polynomial with the bits of a byte as coefficients. -/
noncomputable def poly (b : Byte) : (ZMod 2)[X] :=
  ∑ i ∈ Finset.range 8, C (coeffBit b i) * X ^ i

/-- The element of the field a byte stands for: its polynomial, modulo that of AES. -/
noncomputable def ofByte (b : Byte) : GF := AdjoinRoot.mk modulus (poly b)

lemma coeffBit_xor (a b : Byte) (i : ℕ) : coeffBit (a ^^^ b) i = coeffBit a i + coeffBit b i := by
  rw [coeffBit, coeffBit, coeffBit, BitVec.getLsbD_xor]
  cases a.getLsbD i <;> cases b.getLsbD i <;> decide

lemma poly_xor (a b : Byte) : poly (a ^^^ b) = poly a + poly b := by
  simp only [poly, coeffBit_xor, C_add, add_mul, Finset.sum_add_distrib]

@[simp] lemma ofByte_xor (a b : Byte) : ofByte (a ^^^ b) = ofByte a + ofByte b := by
  rw [ofByte, poly_xor, map_add]
  rfl

@[simp] lemma ofByte_zero : ofByte 0#8 = 0 := by
  simp [ofByte, poly, coeffBit]

@[simp] lemma ofByte_one : ofByte 1#8 = 1 := by
  have hbits : ∀ i < 8, coeffBit 1#8 i = if i = 0 then 1 else 0 := by decide
  simp [ofByte, poly, Finset.sum_range_succ, hbits]

/-! ## Multiplication by the root -/

/-- Multiplication by `x` on bytes: a shift, and the modulus taken off when a bit leaves the byte. -/
def xtime (a : Byte) : Byte := if a.msb then (a <<< 1) ^^^ 0x1B#8 else a <<< 1

/-- The bits of `xtime`: all move up, and the highest is added to those of the modulus. -/
lemma coeffBit_xtime : ∀ a : Byte,
    (coeffBit (xtime a) 0 = coeffBit a 7 ∧ coeffBit (xtime a) 1 = coeffBit a 0 + coeffBit a 7 ∧
      coeffBit (xtime a) 2 = coeffBit a 1 ∧ coeffBit (xtime a) 3 = coeffBit a 2 + coeffBit a 7) ∧
    coeffBit (xtime a) 4 = coeffBit a 3 + coeffBit a 7 ∧ coeffBit (xtime a) 5 = coeffBit a 4 ∧
      coeffBit (xtime a) 6 = coeffBit a 5 ∧ coeffBit (xtime a) 7 = coeffBit a 6 := by
  decide +kernel

lemma poly_xtime (a : Byte) : poly (xtime a) = X * poly a + C (coeffBit a 7) * modulus := by
  obtain ⟨⟨h0, h1, h2, h3⟩, h4, h5, h6, h7⟩ := coeffBit_xtime a
  have htwo : (2 : (ZMod 2)[X]) = 0 := CharTwo.two_eq_zero
  simp only [poly, modulus, Finset.sum_range_succ, Finset.sum_range_zero, h0, h1, h2, h3, h4, h5,
    h6, h7, C_add]
  linear_combination (-(C (coeffBit a 7) * X ^ 8)) * htwo

lemma ofByte_xtime (a : Byte) : ofByte (xtime a) = AdjoinRoot.root modulus * ofByte a := by
  rw [ofByte, poly_xtime, map_add, map_mul, map_mul, AdjoinRoot.mk_self, mul_zero, add_zero,
    AdjoinRoot.mk_X]
  rfl

lemma ofByte_xtime_iterate (a : Byte) (n : ℕ) :
    ofByte (xtime^[n] a) = AdjoinRoot.root modulus ^ n * ofByte a := by
  induction n with
  | zero => simp
  | succ n ih => rw [Function.iterate_succ_apply', ofByte_xtime, ih, pow_succ', mul_assoc]

/-! ## Bytes are the elements -/

lemma modulus_degree : modulus.degree = 8 := by
  rw [modulus]
  compute_degree!

lemma poly_degree (b : Byte) : (poly b).degree < 8 := by
  refine (degree_lt_iff_coeff_zero _ 8).mpr fun i hi => ?_
  have hi : ¬i < 8 := by omega
  simp [poly, coeff_C_mul, coeff_X_pow, hi]

lemma coeff_poly (b : Byte) {i : ℕ} (hi : i < 8) : (poly b).coeff i = coeffBit b i := by
  simp [poly, coeff_C_mul, coeff_X_pow, hi]

lemma ofByte_injective : Function.Injective ofByte := by
  intro a b h
  have hzero : ofByte (a ^^^ b) = 0 := by
    rw [ofByte_xor, h, ← ofByte_xor, BitVec.xor_self, ofByte_zero]
  have hpoly : poly (a ^^^ b) = 0 := by
    refine eq_zero_of_dvd_of_degree_lt (AdjoinRoot.mk_eq_zero.mp hzero) ?_
    rw [modulus_degree]
    exact poly_degree _
  refine BitVec.xor_eq_zero_iff.mp (BitVec.eq_of_getLsbD_eq fun i hi => ?_)
  have hbit := coeff_poly (a ^^^ b) hi
  rw [hpoly, coeff_zero, coeffBit] at hbit
  cases hx : (a ^^^ b).getLsbD i with
  | false => simp
  | true => simp [hx] at hbit

lemma ofByte_surjective : Function.Surjective ofByte := by
  intro g
  obtain ⟨p, rfl⟩ := AdjoinRoot.mk_surjective g
  induction p using Polynomial.induction_on with
  | C a =>
      have hbit : a = 0 ∨ a = 1 := by revert a; decide
      rcases hbit with rfl | rfl
      · exact ⟨0#8, by simp⟩
      · exact ⟨1#8, by simp⟩
  | add p q hp hq =>
      obtain ⟨a, ha⟩ := hp
      obtain ⟨b, hb⟩ := hq
      exact ⟨a ^^^ b, by rw [ofByte_xor, ha, hb, map_add]⟩
  | monomial n a h =>
      obtain ⟨b, hb⟩ := h
      refine ⟨xtime b, ?_⟩
      rw [ofByte_xtime, hb, ← AdjoinRoot.mk_X, ← map_mul]
      congr 1
      ring

/-- Bytes and the elements of the field: every element has exactly one polynomial of degree below
eight. -/
noncomputable def byteEquiv : Byte ≃ GF := Equiv.ofBijective ofByte ⟨ofByte_injective, ofByte_surjective⟩

@[simp] lemma byteEquiv_apply (b : Byte) : byteEquiv b = ofByte b := rfl

@[simp] lemma byteEquiv_symm_ofByte (b : Byte) : byteEquiv.symm (ofByte b) = b :=
  byteEquiv.symm_apply_apply b

/-! ## Multiplication on bytes -/

/-- Horner's rule over the `n` highest bits of `b`. -/
def mulBits (a b : Byte) : ℕ → Byte
  | 0 => 0#8
  | n + 1 => xtime (mulBits a b n) ^^^ (if b.getLsbD (7 - n) then a else 0#8)

/-- Multiplication on bytes, by Horner's rule over all eight bits. -/
def mulByte (a b : Byte) : Byte := mulBits a b 8

lemma ofByte_ite (a b : Byte) (i : ℕ) :
    ofByte (if b.getLsbD i then a else 0#8) =
      AdjoinRoot.mk modulus (C (coeffBit b i)) * ofByte a := by
  cases hbit : b.getLsbD i <;> simp [coeffBit, hbit]

lemma ofByte_mulByte (a b : Byte) : ofByte (mulByte a b) = ofByte a * ofByte b := by
  have hb : ofByte b = AdjoinRoot.mk modulus (poly b) := rfl
  simp only [hb, mulByte, mulBits, ofByte_xor, ofByte_xtime, ofByte_zero, ofByte_ite, poly,
    Finset.sum_range_succ, Finset.sum_range_zero, map_add, map_mul, map_pow, map_zero,
    AdjoinRoot.mk_X]
  ring

/-! ## A generator of the units

The powers of `x + 1` are followed on bytes, where a step is one shift and two exclusive ors.  None of
the first 254 is one, and the 255th is. -/

/-- Multiplication by `x + 1`, whose powers are all the bytes but zero. -/
def generatorStep (a : Byte) : Byte := xtime a ^^^ a

noncomputable def generator : GF := AdjoinRoot.root modulus + 1

lemma ofByte_generatorStep_iterate (n : ℕ) : ofByte (generatorStep^[n] 1#8) = generator ^ n := by
  induction n with
  | zero => simp
  | succ n ih =>
      rw [Function.iterate_succ_apply', generatorStep, ofByte_xor, ofByte_xtime, ih, generator]
      ring

/-- Powers of the generator are told apart on bytes, where they can be computed. -/
lemma generator_pow_eq_one_iff (n : ℕ) : generator ^ n = 1 ↔ generatorStep^[n] 1#8 = 1#8 := by
  rw [← ofByte_generatorStep_iterate, ← ofByte_one]
  exact ofByte_injective.eq_iff

lemma orderOf_generator : orderOf generator = 255 := by
  have hone : generator ^ 255 = 1 := (generator_pow_eq_one_iff 255).mpr (by decide +kernel)
  refine orderOf_eq_of_pow_and_pow_div_prime (by decide) hone fun p hp hdvd => ?_
  have hsplit : p ∣ 3 * 5 * 17 := hdvd
  rw [Ne, generator_pow_eq_one_iff]
  rcases (Nat.Prime.dvd_mul hp).mp hsplit with h | h
  · rcases (Nat.Prime.dvd_mul hp).mp h with h | h
    · rw [(Nat.prime_dvd_prime_iff_eq hp Nat.prime_three).mp h]
      decide +kernel
    · rw [(Nat.prime_dvd_prime_iff_eq hp Nat.prime_five).mp h]
      decide +kernel
  · rw [(Nat.prime_dvd_prime_iff_eq hp (by decide : Nat.Prime 17)).mp h]
    decide +kernel

/-- The numbers below 256 and the elements of the field. -/
noncomputable def finEquiv : Fin 256 ≃ GF := (BitVec.equivFin (m := 8)).symm.toEquiv.trans byteEquiv

noncomputable instance : Fintype GF := Fintype.ofEquiv (Fin 256) finEquiv

lemma card_gf : Fintype.card GF = 256 :=
  (Fintype.ofEquiv_card finEquiv).trans (Fintype.card_fin 256)

lemma generator_pow_ne_zero (n : ℕ) : generator ^ n ≠ 0 := by
  intro h
  have hpow : (generator ^ 255) ^ n = 0 := by
    rw [← pow_mul, mul_comm, pow_mul, h, zero_pow (by decide)]
  have hone : generator ^ 255 = 1 := by rw [← orderOf_generator, pow_orderOf_eq_one]
  rw [hone, one_pow, ← ofByte_one, ← ofByte_zero] at hpow
  exact absurd (ofByte_injective hpow) (by decide)

/-- Every element but zero is a power of the generator: there are 255 of each. -/
lemma exists_generator_pow {a : GF} (ha : a ≠ 0) : ∃ n < 255, generator ^ n = a := by
  classical
  have hcard : ((Finset.range 255).image fun n => generator ^ n).card = 255 := by
    rw [Finset.card_image_of_injOn, Finset.card_range]
    intro i hi j hj hij
    have hinj := pow_injOn_Iio_orderOf (x := generator)
    rw [orderOf_generator] at hinj
    exact hinj (Finset.mem_range.mp hi) (Finset.mem_range.mp hj) hij
  have hsub : ((Finset.range 255).image fun n => generator ^ n) ⊆ Finset.univ.erase (0 : GF) := by
    intro x hx
    obtain ⟨n, -, rfl⟩ := Finset.mem_image.mp hx
    exact Finset.mem_erase.mpr ⟨generator_pow_ne_zero n, Finset.mem_univ _⟩
  have hall := Finset.eq_of_subset_of_card_le hsub (by
    rw [hcard, Finset.card_erase_of_mem (Finset.mem_univ _), Finset.card_univ, card_gf])
  have hmem : a ∈ Finset.univ.erase (0 : GF) := Finset.mem_erase.mpr ⟨ha, Finset.mem_univ _⟩
  rw [← hall] at hmem
  obtain ⟨n, hn, hpow⟩ := Finset.mem_image.mp hmem
  exact ⟨n, Finset.mem_range.mp hn, hpow⟩

/-! ## The field -/

lemma isField_gf : IsField GF where
  exists_pair_ne := ⟨ofByte 0#8, ofByte 1#8, ofByte_injective.ne (by decide)⟩
  mul_comm := mul_comm
  mul_inv_cancel := by
    intro a ha
    obtain ⟨n, hn, rfl⟩ := exists_generator_pow ha
    refine ⟨generator ^ (255 - n), ?_⟩
    rw [← pow_add, Nat.add_sub_cancel' hn.le, ← orderOf_generator, pow_orderOf_eq_one]

lemma modulus_ne_zero : modulus ≠ 0 := by
  intro h
  have hdegree := modulus_degree
  rw [h, degree_zero] at hdegree
  exact absurd hdegree (by decide)

/-- The modulus is irreducible, so the ring is a field. -/
instance modulus_irreducible : Fact (Irreducible modulus) := by
  have hmax : (Ideal.span {modulus}).IsMaximal := Ideal.Quotient.maximal_of_isField _ isField_gf
  exact ⟨((Ideal.span_singleton_prime modulus_ne_zero).mp hmax.isPrime).irreducible⟩

/-- A byte whose product with `b` is one is the inverse of `b`. -/
lemma inv_ofByte {b c : Byte} (h : mulByte b c = 1#8) : (ofByte b)⁻¹ = ofByte c := by
  refine (eq_inv_of_mul_eq_one_right ?_).symm
  rw [← ofByte_mulByte, h, ofByte_one]

end Whuctf.Gf256
