import Mathlib.FieldTheory.Finite.Basic

/-!
# The power identity of RSA

For two distinct primes, raising to exponents whose product is one modulo `(p - 1) * (q - 1)` gives
every number back modulo `p * q`, the multiples of `p` or `q` included.

No coprimality is asked of the number, since a prime modulus divides a number or Fermat's theorem
applies.  The lemmas on masked numbers go with a secret that is hidden by a factor and taken out again
by an inverse of it, one modulus for both.
-/

namespace Whuctf.Rsa

/-- Modulo a prime, a power with exponent one modulo `p - 1` is the number itself. -/
lemma pow_modEq_self {p k : ℕ} (hp : p.Prime) (hpos : 0 < k) (hk : k ≡ 1 [MOD p - 1]) (m : ℕ) :
    m ^ k ≡ m [MOD p] := by
  have hfact : Fact p.Prime := ⟨hp⟩
  obtain ⟨t, ht⟩ := (Nat.modEq_iff_dvd' hpos).mp hk.symm
  have hexponent : k = 1 + (p - 1) * t := by omega
  have hpower : (m : ZMod p) ^ k = m := by
    by_cases hm : (m : ZMod p) = 0
    · rw [hm, zero_pow (by omega)]
    · rw [hexponent, pow_add, pow_one, pow_mul, ZMod.pow_card_sub_one_eq_one hm, one_pow, mul_one]
  rw [← ZMod.natCast_eq_natCast_iff]
  push_cast
  exact hpower

theorem pow_pow_modEq {p q e d : ℕ} (hp : p.Prime) (hq : q.Prime) (hne : p ≠ q)
    (hpos : 0 < e * d) (hinv : e * d ≡ 1 [MOD (p - 1) * (q - 1)]) (m : ℕ) :
    (m ^ d) ^ e ≡ m [MOD p * q] := by
  have hcoprime : Nat.Coprime p q := (Nat.coprime_primes hp hq).mpr hne
  rw [← pow_mul, mul_comm d e, ← Nat.modEq_and_modEq_iff_modEq_mul hcoprime]
  constructor
  · exact pow_modEq_self hp hpos (hinv.of_mul_right (q - 1)) m
  · exact pow_modEq_self hq hpos (hinv.of_mul_left (p - 1)) m

/-- Inverses of the factors take a masked number out of its product, when it is below the modulus of
the mask. -/
lemma mul_inverse_mul_inverse {M d n e s t : ℕ} (hs : e * s % M = 1) (ht : n * t % M = 1) (hd : d < M) :
    d * n * e % M * s * t % M = d := by
  have hs' : e * s ≡ 1 [MOD M] := by
    rw [Nat.ModEq, ← hs, Nat.mod_mod]
  have ht' : n * t ≡ 1 [MOD M] := by
    rw [Nat.ModEq, ← ht, Nat.mod_mod]
  have hmask : d * n * e % M * s * t ≡ d [MOD M] := by
    calc d * n * e % M * s * t ≡ d * n * e * s * t [MOD M] :=
          ((Nat.mod_modEq _ _).mul_right s).mul_right t
      _ = d * (n * t) * (e * s) := by ring
      _ ≡ d * 1 * 1 [MOD M] := (ht'.mul_left d).mul hs'
      _ = d := by rw [mul_one, mul_one]
  rw [hmask, Nat.mod_eq_of_lt hd]

/-- What a factor and then the inverse of a number does to a masked number: the factor is as good as
that number. -/
lemma mul_modEq_of_mul_inverse {M f k r s : ℕ} (hs : r * s % M = 1) :
    r * (k * f % M * s % M) ≡ k * f [MOD M] := by
  have hs' : r * s ≡ 1 [MOD M] := by
    rw [Nat.ModEq, ← hs, Nat.mod_mod]
  calc r * (k * f % M * s % M) ≡ r * (k * f * s) [MOD M] :=
        ((Nat.mod_modEq _ _).trans ((Nat.mod_modEq _ _).mul_right s)).mul_left r
    _ = k * f * (r * s) := by ring
    _ ≡ k * f * 1 [MOD M] := hs'.mul_left _
    _ = k * f := mul_one _

end Whuctf.Rsa
