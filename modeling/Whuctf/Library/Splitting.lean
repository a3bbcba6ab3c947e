import Mathlib.Data.Nat.ChineseRemainder
import Mathlib.Data.ZMod.Basic
import Mathlib.GroupTheory.OrderOfElement
import Mathlib.NumberTheory.Padics.PadicVal.Basic
import Mathlib.Tactic.Positivity

/-!
# Splitting a product of two primes by powers near one

An exponent `2 ^ s * m` with `m` odd that takes an element to one is halved again and again.  The power
stays one as long as the exponent has the power of two of the order (`pow_eq_one_iff`), so modulo two
primes the powers part exactly where the two orders have different powers of two.  A power that is one
modulo one of the primes only shows a factor as a greatest common divisor (`one_lt_gcd_iff`).

That the two orders have different powers of two for some base follows from one base alone, which is
one modulo the first prime and minus one modulo the second.  With an odd modulus on that side the
orders are one and two.
-/

namespace Whuctf.Splitting

/-- Of the exponents `2 ^ j * m` those take `x` to one that have the power of two of its order. -/
lemma pow_eq_one_iff {G : Type*} [Monoid G] {x : G} {s m : ℕ} (hm : Odd m)
    (h : x ^ (2 ^ s * m) = 1) (j : ℕ) :
    x ^ (2 ^ j * m) = 1 ↔ padicValNat 2 (orderOf x) ≤ j := by
  have hdvd := orderOf_dvd_of_pow_eq_one h
  have hmpos := hm.pos
  have hpos : orderOf x ≠ 0 := by
    intro hzero
    rw [hzero, zero_dvd_iff] at hdvd
    exact absurd hdvd (by positivity)
  constructor
  · intro hone
    have hpow : 2 ^ padicValNat 2 (orderOf x) ∣ 2 ^ j * m :=
      pow_padicValNat_dvd.trans (orderOf_dvd_of_pow_eq_one hone)
    have hcoprime : Nat.Coprime (2 ^ padicValNat 2 (orderOf x)) m :=
      (Nat.coprime_two_left.mpr hm).pow_left _
    exact (Nat.pow_dvd_pow_iff_le_right (by decide)).mp (hcoprime.dvd_of_dvd_mul_right hpow)
  · intro hle
    obtain ⟨b, hb⟩ : 2 ^ padicValNat 2 (orderOf x) ∣ orderOf x := pow_padicValNat_dvd
    have hodd : ¬2 ∣ b := by
      rintro ⟨c, hc⟩
      apply pow_succ_padicValNat_not_dvd (p := 2) hpos
      exact ⟨c, by rw [pow_succ, mul_assoc, ← hc, ← hb]⟩
    have hcoprime : Nat.Coprime b (2 ^ s) :=
      ((Nat.prime_two.coprime_iff_not_dvd.mpr hodd).symm).pow_right s
    have hbm : b ∣ m := hcoprime.dvd_of_dvd_mul_left ((Dvd.intro_left _ hb.symm).trans hdvd)
    rw [← orderOf_dvd_iff_pow_eq_one, hb]
    exact Nat.mul_dvd_mul (Nat.pow_dvd_pow 2 hle) hbm

section TwoPrimes

variable {p q : ℕ}

/-- A number that is a unit modulo both primes shows a factor exactly when it is one modulo one of them
only. -/
lemma one_lt_gcd_iff (hp : p.Prime) (hq : q.Prime) (hne : p ≠ q) {y : ℕ}
    (hy : Nat.Coprime y (p * q)) :
    1 < y % (p * q) ∧ 1 < Nat.gcd (y % (p * q) - 1) (p * q) ↔
      ¬(y ≡ 1 [MOD p] ↔ y ≡ 1 [MOD q]) := by
  have hcoprime : Nat.Coprime p q := (Nat.coprime_primes hp hq).mpr hne
  have hn : 1 < p * q := Nat.one_lt_mul_iff.mpr ⟨hp.pos, hq.pos, Or.inl hp.one_lt⟩
  obtain ⟨x, hx⟩ : ∃ x, x = y % (p * q) := ⟨_, rfl⟩
  have hxy : x ≡ y [MOD p * q] := hx ▸ Nat.mod_modEq y (p * q)
  have hpos : 0 < x := by
    rw [Nat.pos_iff_ne_zero]
    rintro rfl
    have hgcd : Nat.gcd y (p * q) = p * q :=
      Nat.gcd_eq_right (Nat.dvd_of_mod_eq_zero hx.symm)
    rw [Nat.coprime_iff_gcd_eq_one.mp hy] at hgcd
    omega
  have hlt : x < p * q := hx ▸ Nat.mod_lt _ (by omega)
  have hmodp : p ∣ x - 1 ↔ y ≡ 1 [MOD p] := by
    rw [← Nat.modEq_iff_dvd' hpos]
    have hxp := hxy.of_mul_right q
    exact ⟨fun h => hxp.symm.trans h.symm, fun h => (hxp.trans h).symm⟩
  have hmodq : q ∣ x - 1 ↔ y ≡ 1 [MOD q] := by
    rw [← Nat.modEq_iff_dvd' hpos]
    have hxq := hxy.of_mul_left p
    exact ⟨fun h => hxq.symm.trans h.symm, fun h => (hxq.trans h).symm⟩
  rw [← hx, ← hmodp, ← hmodq]
  constructor
  · rintro ⟨hone, hgcd⟩ hiff
    have hprime : p ∣ x - 1 ∨ q ∣ x - 1 := by
      obtain ⟨r, hr, hrdvd⟩ := Nat.exists_prime_and_dvd hgcd.ne'
      have hr1 : r ∣ x - 1 := hrdvd.trans (Nat.gcd_dvd_left _ _)
      rcases (Nat.Prime.dvd_mul hr).mp (hrdvd.trans (Nat.gcd_dvd_right _ _)) with hrp | hrq
      · exact Or.inl ((Nat.prime_dvd_prime_iff_eq hr hp).mp hrp ▸ hr1)
      · exact Or.inr ((Nat.prime_dvd_prime_iff_eq hr hq).mp hrq ▸ hr1)
    have hboth : p ∣ x - 1 ∧ q ∣ x - 1 := by tauto
    have hle := Nat.le_of_dvd (by omega) (hcoprime.mul_dvd_of_dvd_of_dvd hboth.1 hboth.2)
    omega
  · intro hiff
    have hone : x ≠ 1 := by
      rintro rfl
      simp at hiff
    refine ⟨by omega, ?_⟩
    have hsome : p ∣ x - 1 ∨ q ∣ x - 1 := by tauto
    have hgpos : 0 < Nat.gcd (x - 1) (p * q) := Nat.gcd_pos_of_pos_right _ (by omega)
    rcases hsome with hdvd | hdvd
    · exact hp.one_lt.trans_le
        (Nat.le_of_dvd hgpos (Nat.dvd_gcd hdvd (Dvd.intro _ rfl)))
    · exact hq.one_lt.trans_le
        (Nat.le_of_dvd hgpos (Nat.dvd_gcd hdvd (Dvd.intro_left _ rfl)))

/-- **Where the powers part.**  Some exponent `2 ^ j * m` below `2 ^ s * m` takes `g` to one modulo one of
the primes only, exactly when the orders of `g` have different powers of two. -/
theorem exists_split_iff {s m g : ℕ} (hm : Odd m) (hgp : (g : ZMod p) ^ (2 ^ s * m) = 1)
    (hgq : (g : ZMod q) ^ (2 ^ s * m) = 1) :
    (∃ j < s, ¬(g ^ (2 ^ j * m) ≡ 1 [MOD p] ↔ g ^ (2 ^ j * m) ≡ 1 [MOD q])) ↔
      padicValNat 2 (orderOf (g : ZMod p)) ≠ padicValNat 2 (orderOf (g : ZMod q)) := by
  have hcast : ∀ r t : ℕ, g ^ t ≡ 1 [MOD r] ↔ (g : ZMod r) ^ t = 1 := by
    intro r t
    rw [← ZMod.natCast_eq_natCast_iff]
    push_cast
    exact Iff.rfl
  have hp := pow_eq_one_iff hm hgp
  have hq := pow_eq_one_iff hm hgq
  have hps := (hp s).mp hgp
  have hqs := (hq s).mp hgq
  simp only [hcast, hp, hq]
  constructor
  · rintro ⟨j, -, hj⟩ heq
    rw [heq] at hj
    exact hj Iff.rfl
  · intro hne
    rcases Nat.lt_or_gt_of_ne hne with hlt | hlt
    · exact ⟨padicValNat 2 (orderOf (g : ZMod p)), by omega, by omega⟩
    · exact ⟨padicValNat 2 (orderOf (g : ZMod q)), by omega, by omega⟩

/-- One modulo `p` and minus one modulo an odd `q`: the orders are one and two. -/
lemma exists_base_of_odd (hp : p.Prime) (hq : q.Prime) (hq2 : q ≠ 2) (hne : p ≠ q) :
    ∃ g, 2 ≤ g ∧ g < p * q ∧ Nat.Coprime g (p * q) ∧
      padicValNat 2 (orderOf (g : ZMod p)) ≠ padicValNat 2 (orderOf (g : ZMod q)) := by
  have hcoprime : Nat.Coprime p q := (Nat.coprime_primes hp hq).mpr hne
  have hq3 : 2 < q := lt_of_le_of_ne hq.two_le hq2.symm
  obtain ⟨g, hgp, hgq⟩ := Nat.chineseRemainder hcoprime 1 (q - 1)
  obtain ⟨y, hy⟩ : ∃ y, y = g % (p * q) := ⟨_, rfl⟩
  have hyg : y ≡ g [MOD p * q] := hy ▸ Nat.mod_modEq g (p * q)
  have hyp : y ≡ 1 [MOD p] := (hyg.of_mul_right q).trans hgp
  have hyq : y ≡ q - 1 [MOD q] := (hyg.of_mul_left p).trans hgq
  have hlt : y < p * q := hy ▸ Nat.mod_lt _ (Nat.mul_pos hp.pos hq.pos)
  have hcastp : (y : ZMod p) = 1 := by
    rw [← Nat.cast_one, ZMod.natCast_eq_natCast_iff]
    exact hyp
  have hcastq : (y : ZMod q) = -1 := by
    rw [(ZMod.natCast_eq_natCast_iff y (q - 1) q).mpr hyq, Nat.cast_sub (by omega),
      ZMod.natCast_self, zero_sub, Nat.cast_one]
  have hfact : Fact (2 < q) := ⟨hq3⟩
  have hy0 : y ≠ 0 := by
    rintro rfl
    have hzero : (0 : ZMod q) = -1 := by simpa using hcastq
    have hone : (1 : ZMod q) = 0 := by rw [← neg_neg (1 : ZMod q), ← hzero, neg_zero]
    have hprime : Fact q.Prime := ⟨hq⟩
    exact one_ne_zero hone
  have hy1 : y ≠ 1 := by
    rintro rfl
    exact ZMod.neg_one_ne_one (by simpa using hcastq.symm)
  have horder : orderOf (-1 : ZMod q) = 2 :=
    orderOf_eq_prime (by norm_num) ZMod.neg_one_ne_one
  refine ⟨y, by omega, hlt, ?_, ?_⟩
  · apply Nat.Coprime.mul_right
    · rw [Nat.coprime_iff_gcd_eq_one, hyp.gcd_eq, Nat.gcd_one_left]
    · rw [Nat.coprime_iff_gcd_eq_one, hyq.gcd_eq]
      exact (Nat.coprime_self_sub_left (by omega)).mpr (Nat.coprime_one_left q)
  · rw [hcastp, hcastq, orderOf_one, horder]
    simp

/-- Some base has orders with different powers of two, since one of the primes is odd. -/
lemma exists_base (hp : p.Prime) (hq : q.Prime) (hne : p ≠ q) :
    ∃ g, 2 ≤ g ∧ g < p * q ∧ Nat.Coprime g (p * q) ∧
      padicValNat 2 (orderOf (g : ZMod p)) ≠ padicValNat 2 (orderOf (g : ZMod q)) := by
  by_cases hq2 : q = 2
  · obtain ⟨g, hg2, hlt, hg, horders⟩ :=
      exists_base_of_odd hq hp (fun hp2 => hne (hp2.trans hq2.symm)) hne.symm
    rw [mul_comm] at hlt hg
    exact ⟨g, hg2, hlt, hg, horders.symm⟩
  · exact exists_base_of_odd hp hq hq2 hne

end TwoPrimes

end Whuctf.Splitting
