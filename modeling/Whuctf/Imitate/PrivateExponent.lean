import Mathlib.Tactic.NormNum
import Mathlib.Tactic.NormNum.GCD
import Mathlib.Tactic.NormNum.Prime
import Whuctf.Imitate.Token
import Whuctf.Library.Primality

/-!
# The private exponent from the gift

`JWT_RS256.__init__` publishes `d * n * e` modulo a prime of 1024 bits.  Step 2 of `std.py` multiplies by
the inverses of `e` and of `n` modulo that prime.  Both exist, since `n` is a product of smaller primes,
and `d` comes back as it was, since it is below `n`, which is below the prime.

The heading of this step stands in `std.py` as the bare text `Step 2`, without the `#` of the others, which
no interpreter accepts.  It is read as the comment it was meant for; the lines below it are modelled as
they are.
-/

namespace Whuctf.Imitate

open Python Primality

/-- Step 2 of `std.py`: `(gift * inverse(e, Mod) * inverse(N, Mod)) % Mod % N`. -/
def step2 (lib : CryptoNumber) (gift modulus N : ℕ) : Except PyError ℕ := do
  let e := 0x10001
  return gift * (← lib.inverse e modulus) * (← lib.inverse N modulus) % modulus % N

/-- A prime of the given number of bits, as `getPrime` returns it. -/
structure PrimeOfBits (bits p : ℕ) : Prop where
  prime : p.Prime
  low : 2 ^ (bits - 1) ≤ p
  high : p < 2 ^ bits

/-- A product of numbers of `b` bits is smaller than a number of more than `2 * b` bits. -/
lemma mul_lt_of_bits {b c p q m : ℕ} (hp : p < 2 ^ b) (hq : q < 2 ^ b) (hbits : b + b ≤ c)
    (hm : 2 ^ c ≤ m) : p * q < m := by
  calc p * q < 2 ^ b * 2 ^ b := Nat.mul_lt_mul'' hp hq
    _ = 2 ^ (b + b) := (pow_add 2 b b).symm
    _ ≤ 2 ^ c := Nat.pow_le_pow_right (by omega) hbits
    _ ≤ m := hm

lemma prime_65537 : Nat.Prime 0x10001 := by norm_num

/-- **The private exponent.**  For distinct primes of 256 bits that `e` can be inverted for, and every
prime of 1024 bits, step 2 computes the exponent that the key signs with. -/
theorem step2_eq_privateExponent (lib : CryptoNumber) {p q modulus : ℕ} (hp : PrimeOfBits 256 p)
    (hq : PrimeOfBits 256 q) (hne : p ≠ q) (hmodulus : PrimeOfBits 1024 modulus)
    (hgcd : Nat.gcd 0x10001 ((p - 1) * (q - 1)) = 1) :
    ∃ jwt, JwtRS256.init lib p q modulus = .ok jwt ∧
      step2 lib jwt.gift jwt.modulus jwt.n = .ok jwt.d := by
  obtain ⟨jwt, hinit, hn, -, hd, hmod, hgift⟩ := init_ok lib modulus hp.prime hq.prime hne hgcd
  have hpq : p * q < modulus := mul_lt_of_bits hp.high hq.high (by omega) hmodulus.low
  have hwider : ∀ r, r < 2 ^ 256 → r < modulus := by
    intro r hr
    exact (hr.trans_le (Nat.pow_le_pow_right (by omega) (by omega))).trans_le hmodulus.low
  have hdn : jwt.d < p * q :=
    hd.trans_le (Nat.mul_le_mul (Nat.sub_le p 1) (Nat.sub_le q 1))
  have hsmall : ∀ r, r.Prime → r < modulus → Nat.gcd r modulus = 1 := by
    intro r hr hlt
    exact (Nat.coprime_primes hr hmodulus.prime).mpr hlt.ne
  have he := hsmall 0x10001 prime_65537 (hwider _ (by norm_num))
  have hN : Nat.gcd (p * q) modulus = 1 := by
    apply Nat.Coprime.mul_left
    · exact hsmall p hp.prime (hwider p hp.high)
    · exact hsmall q hq.prime (hwider q hq.high)
  obtain ⟨s, hinverse, -, hs⟩ := lib.inverse_ok hmodulus.prime.one_lt he
  obtain ⟨t, hinverse', -, ht⟩ := lib.inverse_ok hmodulus.prime.one_lt hN
  refine ⟨jwt, hinit, ?_⟩
  have hunmask : jwt.gift * s * t % modulus = jwt.d := by
    rw [hgift, hn]
    exact Rsa.mul_inverse_mul_inverse hs ht (by omega)
  rw [step2, hmod, hn, hinverse, ok_bind, hinverse', ok_bind, hunmask, Nat.mod_eq_of_lt hdn]
  rfl

/-! ## A key -/

lemma primeOfBits_256 : PrimeOfBits 256 (467 * 2 ^ (246 + 1) + 1) where
  prime := prime_of_squarings (a := 3) (by norm_num) (by decide +kernel) (by decide +kernel)
  low := by decide +kernel
  high := by decide +kernel

lemma primeOfBits_256' : PrimeOfBits 256 (757 * 2 ^ (245 + 1) + 1) where
  prime := prime_of_squarings (a := 3) (by norm_num) (by decide +kernel) (by decide +kernel)
  low := by decide +kernel
  high := by decide +kernel

lemma primeOfBits_1024 : PrimeOfBits 1024 (3931 * 2 ^ (1011 + 1) + 1) where
  prime := prime_of_squarings (a := 3) (by norm_num) (by decide +kernel) (by decide +kernel)
  low := by decide +kernel
  high := by decide +kernel

theorem step2_eq_privateExponent_proth :
    ∃ jwt, JwtRS256.init searchNumber (467 * 2 ^ (246 + 1) + 1) (757 * 2 ^ (245 + 1) + 1)
        (3931 * 2 ^ (1011 + 1) + 1) = .ok jwt ∧
      step2 searchNumber jwt.gift jwt.modulus jwt.n = .ok jwt.d :=
  step2_eq_privateExponent searchNumber primeOfBits_256 primeOfBits_256' (by decide +kernel)
    primeOfBits_1024 (by decide +kernel)

end Whuctf.Imitate
