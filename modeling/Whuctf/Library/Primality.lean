import Mathlib.NumberTheory.LucasPrimality

/-!
# Primes one above a multiple of a power of two

A number `k * 2 ^ m + 1` with `k` prime has two prime factors to look at below it, so the test of Lucas
needs powers whose exponents are reached by squaring: `squarings` computes them, and
`prime_of_squarings` is the test.  It proves primes of a thousand bits within a proof.

The evaluation is by the kernel, so the powers are computed with numbers below `p` and in a number of
steps that is the bit length of the exponent.  Other primes do not have a chain of this kind, and
nothing is said of them.
-/

namespace Whuctf.Primality

/-- `x` squared `n` times, modulo `p`, with a reduction behind each of the squarings. -/
def squarings (p : ℕ) : ℕ → ℕ → ℕ
  | 0, x => x % p
  | n + 1, x => squarings p n x * squarings p n x % p

lemma squarings_eq (p n x : ℕ) : squarings p n x = x ^ 2 ^ n % p := by
  induction n with
  | zero => rw [squarings, pow_zero, pow_one]
  | succ n ih => rw [squarings, ih, ← Nat.mul_mod, pow_succ, mul_two, pow_add]

/-- The test of Lucas for `k * 2 ^ (m + 1) + 1` to the base `a`: half of the exponent gives `-1`, so
that the whole exponent gives one, and the exponent divided by `k` does not give one. -/
theorem prime_of_squarings {k m a : ℕ} (hk : k.Prime)
    (hminus : squarings (k * 2 ^ (m + 1) + 1) m (a ^ k) = k * 2 ^ (m + 1))
    (hone : squarings (k * 2 ^ (m + 1) + 1) (m + 1) a ≠ 1) :
    (k * 2 ^ (m + 1) + 1).Prime := by
  obtain ⟨p, hp⟩ : ∃ p, p = k * 2 ^ (m + 1) + 1 := ⟨_, rfl⟩
  have hpred : p - 1 = k * 2 ^ (m + 1) := by omega
  have hpos : 2 < p := by
    have hle : 2 * 2 ^ 1 ≤ k * 2 ^ (m + 1) :=
      Nat.mul_le_mul hk.two_le (Nat.pow_le_pow_right (by omega) (by omega))
    omega
  rw [← hp, squarings_eq] at hminus hone
  rw [← hp]
  have hhalf : (a : ZMod p) ^ (k * 2 ^ m) = -1 := by
    have hcast : ((a ^ k) ^ 2 ^ m : ZMod p) = ((p - 1 : ℕ) : ZMod p) := by
      rw [hpred, ← hminus]
      simp
    rw [pow_mul, hcast, Nat.cast_sub (by omega), ZMod.natCast_self, zero_sub, Nat.cast_one]
  have hfull : (a : ZMod p) ^ (p - 1) = 1 := by
    rw [hpred, pow_succ, ← mul_assoc, pow_mul, hhalf, neg_one_sq]
  apply lucas_primality p a hfull
  intro q hq hdvd hpow
  rw [hpred] at hdvd
  have hfact : Fact (2 < p) := ⟨hpos⟩
  rcases (Nat.Prime.dvd_mul hq).mp hdvd with hdvd | hdvd
  · obtain rfl : q = k := (Nat.prime_dvd_prime_iff_eq hq hk).mp hdvd
    rw [hpred, Nat.mul_div_cancel_left _ hq.pos] at hpow
    apply hone
    have hcast : ((a ^ 2 ^ (m + 1) : ℕ) : ZMod p) = ((1 : ℕ) : ZMod p) := by
      push_cast
      exact hpow
    rwa [ZMod.natCast_eq_natCast_iff, Nat.ModEq, Nat.mod_eq_of_lt (show 1 < p by omega)] at hcast
  · obtain rfl : q = 2 := (Nat.prime_dvd_prime_iff_eq hq Nat.prime_two).mp (hq.dvd_of_dvd_pow hdvd)
    rw [hpred, pow_succ, ← mul_assoc, Nat.mul_div_cancel _ (by omega), hhalf] at hpow
    exact ZMod.neg_one_ne_one hpow

end Whuctf.Primality
