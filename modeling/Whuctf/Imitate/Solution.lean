import Whuctf.Imitate.Factoring
import Whuctf.Imitate.PrivateExponent

/-!
# The solution of the imitate challenge

`task.py` prints the gift, the prime that masks it, two tokens and the flag multiplied by one of the
primes of the key; `std.py` works the flag out of these.  Its STEP 1 computes a multiple of the modulus
from the tokens.  The other steps start from the modulus itself, which the author reads off that
multiple and writes into the file: the private exponent from the gift, the primes from both exponents,
and the flag from the right one of the primes.

The primes that `divide_pq` returns stand in either order, by the base that it happens to draw, so the
author writes the right one into the file as well.  With the other prime the last line gives another
number (`unmask_other_ne`).
-/

namespace Whuctf.Imitate

open Draws Python

/-! ## The challenge and its solution

The two scripts are taken apart at the places where the author has copied a number from one run into
the next.  Each part of `std.py` is a function of what `task.py` prints and of such a number. -/

/-- What `task.py` prints: the gift and its prime, the two tokens, and the masked flag. -/
structure Output where
  gift : ℕ
  modulus : ℕ
  Ca : List Char
  Cb : List Char
  C : ℕ

/-- `task.py`, with the values that its calls of `getPrime` return. -/
def task (lib : CryptoNumber) (p q modulus : ℕ) (flag a b : List Byte) : Except PyError Output := do
  let jwt ← JwtRS256.init lib p q modulus
  let Ca := jwt.encode lib a
  let Cb := jwt.encode lib b
  let C := jwt.p * lib.bytesToLong flag % jwt.modulus
  return { gift := jwt.gift, modulus := jwt.modulus, Ca, Cb, C }

/-- Step 2 of `std.py` and its call of `divide_pq`, for a modulus that the author has copied into the
file. -/
def factors (lib : CryptoNumber) (out : Output) (N : ℕ) : Run PyError (ℕ × ℕ) :=
  let e := 0x10001
  match step2 lib out.gift out.modulus N with
  | .error error => throw (.raises error)
  | .ok d => dividePq e d N

/-- `(C * inverse(p, Mod)) % Mod`, the last line of `std.py`, which takes the first prime off the
masked flag. -/
def unmask (lib : CryptoNumber) (out : Output) (p : ℕ) : Except PyError ℕ := do
  return out.C * (← lib.inverse p out.modulus) % out.modulus

/-! ## The private exponent

The gift is a product of three factors modulo a prime.  Two of them are known to the solver, and
multiplying by their inverses leaves the third, which is small enough to be the residue itself. -/

section Key

variable (lib : CryptoNumber) {p q modulus : ℕ}

lemma init_primes {jwt : JwtRS256} (h : JwtRS256.init lib p q modulus = .ok jwt) :
    jwt.p = p ∧ jwt.q = q := by
  obtain ⟨d, -, hjwt⟩ := exists_of_bind_eq_ok h
  cases hjwt
  exact ⟨rfl, rfl⟩

/-- What a key makes `task.py` print: the gift, the two tokens, and the masked flag. -/
lemma task_of_init {jwt : JwtRS256} (h : JwtRS256.init lib p q modulus = .ok jwt)
    (flag a b : List Byte) :
    task lib p q modulus flag a b = .ok
      { gift := jwt.gift
        modulus := jwt.modulus
        Ca := jwt.encode lib a
        Cb := jwt.encode lib b
        C := jwt.p * lib.bytesToLong flag % jwt.modulus } := by
  rw [task, h, ok_bind]
  rfl

/-- What `PrimeOfBits` says of a prime that masks and of one that is masked. -/
lemma lt_of_primeOfBits {r : ℕ} (hr : r < 2 ^ 256) (hmodulus : PrimeOfBits 1024 modulus) :
    r < modulus :=
  (hr.trans_le (Nat.pow_le_pow_right (by omega) (by omega))).trans_le hmodulus.low

/-- A prime below the prime of 1024 bits has an inverse, since the two are different primes. -/
lemma exists_inverse {r : ℕ} (hr : r.Prime) (hlt : r < 2 ^ 256) (hmodulus : PrimeOfBits 1024 modulus) :
    ∃ s, lib.inverse r modulus = .ok s ∧ s < modulus ∧ r * s % modulus = 1 := by
  apply lib.inverse_ok hmodulus.prime.one_lt
  exact (Nat.coprime_primes hr hmodulus.prime).mpr (lt_of_primeOfBits hlt hmodulus).ne

variable (hp : PrimeOfBits 256 p) (hq : PrimeOfBits 256 q) (hmodulus : PrimeOfBits 1024 modulus)

include hp hq hmodulus

/-- The modulus of the key has an inverse modulo the prime of 1024 bits, since both of its factors
have. -/
lemma exists_inverse_mul :
    ∃ s, lib.inverse (p * q) modulus = .ok s ∧ s < modulus ∧ p * q * s % modulus = 1 := by
  apply lib.inverse_ok hmodulus.prime.one_lt
  apply Nat.Coprime.mul_left
  · exact (Nat.coprime_primes hp.prime hmodulus.prime).mpr (lt_of_primeOfBits hp.high hmodulus).ne
  · exact (Nat.coprime_primes hq.prime hmodulus.prime).mpr (lt_of_primeOfBits hq.high hmodulus).ne

/-- Step 2 of `std.py` gives any exponent below the modulus of the key back. -/
lemma step2_of_gift {d : ℕ} (hd : d < p * q) :
    step2 lib (d * (p * q) * 0x10001 % modulus) modulus (p * q) = .ok d := by
  have hlt : d < modulus := hd.trans (mul_lt_of_bits hp.high hq.high (by omega) hmodulus.low)
  obtain ⟨s, hinverse, -, hs⟩ := exists_inverse lib prime_65537 (by norm_num) hmodulus
  obtain ⟨t, hinverse', -, ht⟩ := exists_inverse_mul lib hp hq hmodulus
  rw [step2, hinverse, ok_bind, hinverse', ok_bind, Rsa.mul_inverse_mul_inverse hs ht hlt,
    Nat.mod_eq_of_lt hd]
  rfl

end Key

/-! ## The flag -/

section Flag

variable (lib : CryptoNumber) {p q modulus f : ℕ} {out : Output}

/-- The prime that the flag was multiplied by gives the flag back. -/
lemma unmask_eq (hp : PrimeOfBits 256 p) (hmodulus : PrimeOfBits 1024 modulus) (hf : f < modulus)
    (hout : out.modulus = modulus) (hC : out.C = p * f % modulus) :
    unmask lib out p = .ok f := by
  obtain ⟨s, hinverse, -, hs⟩ := exists_inverse lib hp.prime hp.high hmodulus
  have hcoprime : Nat.Coprime modulus p := by
    rw [Nat.coprime_primes hmodulus.prime hp.prime]
    exact (lt_of_primeOfBits hp.high hmodulus).ne'
  have hback : p * f % modulus * s % modulus ≡ f [MOD modulus] :=
    Nat.ModEq.cancel_left_of_coprime hcoprime (Rsa.mul_modEq_of_mul_inverse hs)
  rw [Nat.ModEq, Nat.mod_mod, Nat.mod_eq_of_lt hf] at hback
  rw [unmask, hout, hinverse, ok_bind, hC, hback]
  rfl

/-- Another prime gives another number, unless the flag is zero: the two would agree only if the primes
did. -/
lemma unmask_other_ne (hp : PrimeOfBits 256 p) (hq : PrimeOfBits 256 q) (hne : p ≠ q)
    (hmodulus : PrimeOfBits 1024 modulus) (hf : f < modulus) (hpos : 0 < f)
    (hout : out.modulus = modulus) (hC : out.C = p * f % modulus) :
    ∃ x, unmask lib out q = .ok x ∧ x ≠ f := by
  obtain ⟨s, hinverse, -, hs⟩ := exists_inverse lib hq.prime hq.high hmodulus
  refine ⟨p * f % modulus * s % modulus, ?_, ?_⟩
  · rw [unmask, hout, hinverse, ok_bind, hC]
    rfl
  · intro hx
    have hmul := Rsa.mul_modEq_of_mul_inverse (f := f) (k := p) hs
    rw [hx] at hmul
    have hcoprime : Nat.Coprime modulus f :=
      hmodulus.prime.coprime_iff_not_dvd.mpr (Nat.not_dvd_of_pos_of_lt hpos hf)
    have hqp := Nat.ModEq.cancel_right_of_coprime hcoprime hmul
    rw [Nat.ModEq, Nat.mod_eq_of_lt (lt_of_primeOfBits hq.high hmodulus),
      Nat.mod_eq_of_lt (lt_of_primeOfBits hp.high hmodulus)] at hqp
    exact hne hqp.symm

end Flag

/-! ## The theorem -/

section Factors

variable (lib : CryptoNumber) {p q d : ℕ} {out : Output}

lemma factors_of_step2 (h : step2 lib out.gift out.modulus (p * q) = .ok d) :
    factors lib out (p * q) = dividePq 0x10001 d (p * q) := by
  unfold factors
  simp only [h]

/-- A proper divisor of the product of two primes is one of them, and its complement the other. -/
lemma eq_of_mul_eq (hp : p.Prime) (hq : q.Prime) {P Q : ℕ} (hP : 1 < P) (hlt : P < p * q)
    (hPQ : P * Q = p * q) : (P = p ∧ Q = q) ∨ (P = q ∧ Q = p) := by
  rcases hp.dvd_mul.mp (Dvd.intro q hPQ.symm) with ⟨c, rfl⟩ | ⟨c, rfl⟩
  · have hcQ : c * Q = q := Nat.eq_of_mul_eq_mul_left hp.pos (by rw [← hPQ, mul_assoc])
    rcases (Nat.dvd_prime hq).mp (Dvd.intro Q hcQ) with rfl | rfl
    · exact Or.inl ⟨mul_one p, by rw [← hcQ, one_mul]⟩
    · exact absurd hlt (lt_irrefl _)
  · have hPc : P * c = q := Nat.eq_of_mul_eq_mul_left hp.pos (by rw [← hPQ, mul_left_comm])
    rcases (Nat.dvd_prime hq).mp (Dvd.intro c hPc) with rfl | rfl
    · exact absurd hP (lt_irrefl _)
    · have hc : c = 1 := Nat.eq_of_mul_eq_mul_left hq.pos (hPc.trans (mul_one P).symm)
      exact Or.inr ⟨rfl, by rw [hc, mul_one]⟩

/-- Some base returns the factors at once, so there is a first draw with which `divide_pq` returns. -/
lemma exists_draw (hp : p.Prime) (hq : q.Prime) (hne : p ≠ q)
    (hd : 0x10001 * d % ((p - 1) * (q - 1)) = 1) :
    ∃ g, ∀ rest, ∃ P Q, dividePq 0x10001 d (p * q) (g :: rest) = .ok ((P, Q), rest) := by
  have hpos : 1 < (0x10001 : ℤ) * d := by
    by_contra hle
    obtain rfl : d = 0 := by omega
    rw [mul_zero, Nat.zero_mod] at hd
    omega
  have hinv : (0x10001 : ℤ) * d ≡ 1 [ZMOD ((p - 1) * (q - 1) : ℕ)] := by
    have hnat : 0x10001 * d ≡ 1 [MOD (p - 1) * (q - 1)] := by
      rw [Nat.ModEq, hd, Nat.mod_eq_of_lt (one_lt_totient hp hq hne)]
    exact_mod_cast Int.natCast_modEq_iff.mpr hnat
  obtain ⟨g, hg2, hgn, hg, horders⟩ := Splitting.exists_base hp hq hne
  refine ⟨g, fun rest => ?_⟩
  obtain ⟨P, Q, hreturns⟩ :=
    (iteration_returns_iff hp hq hne hpos hinv hg2 (by omega) hg rest).mpr horders
  exact ⟨P, Q, (loop_eq_ok_iff (iteration_consumes _ _)).mpr ⟨((), g :: rest), .refl, hreturns⟩⟩

end Factors

/-- **The solution.**  For primes as `getPrime` returns them, distinct and such that `e` can be
inverted, and a flag below the prime of 1024 bits, `std.py` recovers from what `task.py` prints: a
multiple of the modulus from the two tokens; from the modulus the primes themselves, in one order or
the other whatever is drawn, and at once from some first draw; from the prime that the flag was
multiplied by the flag, and from the other prime another number unless the flag is zero. -/
theorem solution_recovers_flag (lib : CryptoNumber) {p q modulus : ℕ} (hp : PrimeOfBits 256 p)
    (hq : PrimeOfBits 256 q) (hne : p ≠ q) (hmodulus : PrimeOfBits 1024 modulus)
    (hgcd : Nat.gcd 0x10001 ((p - 1) * (q - 1)) = 1) (flag a b : List Byte)
    (hflag : lib.bytesToLong flag < modulus) :
    ∃ out, task lib p q modulus flag a b = .ok out ∧
      (∃ N, step1 lib out.Ca out.Cb = .ok N ∧ p * q ∣ N) ∧
      (∀ draws P Q rest, factors lib out (p * q) draws = .ok ((P, Q), rest) →
        (P = p ∧ Q = q) ∨ (P = q ∧ Q = p)) ∧
      (∃ g, ∀ rest, ∃ P Q, factors lib out (p * q) (g :: rest) = .ok ((P, Q), rest)) ∧
      unmask lib out p = .ok (lib.bytesToLong flag) ∧
      (0 < lib.bytesToLong flag → ∃ x, unmask lib out q = .ok x ∧ x ≠ lib.bytesToLong flag) := by
  obtain ⟨jwt, hinit, hn, hd, hlt, hmod, hgift⟩ := init_ok lib modulus hp.prime hq.prime hne hgcd
  have hspec := signature_spec lib hp.prime hq.prime hne hn hd
  have hdvd := dvd_gcd_sub (hspec a).2 (hspec b).2
  push_cast at hdvd
  have hdn : jwt.d < p * q :=
    hlt.trans_le (Nat.mul_le_mul (Nat.sub_le p 1) (Nat.sub_le q 1))
  have hstep2 : step2 lib jwt.gift jwt.modulus (p * q) = .ok jwt.d := by
    rw [hgift, hmod, hn]
    exact step2_of_gift lib hp hq hmodulus hdn
  have hC : jwt.p * lib.bytesToLong flag % jwt.modulus = p * lib.bytesToLong flag % modulus := by
    rw [(init_primes lib hinit).1, hmod]
  refine ⟨_, task_of_init lib hinit flag a b, ⟨_, step1_encode lib jwt a b, hdvd⟩, ?_, ?_, ?_, ?_⟩
  · intro draws P Q rest hrun
    rw [factors_of_step2 lib hstep2] at hrun
    obtain ⟨hP, hPlt, hPQ⟩ := dividePq_sound hrun
    exact eq_of_mul_eq hp.prime hq.prime hP hPlt hPQ
  · rw [factors_of_step2 lib hstep2]
    exact exists_draw hp.prime hq.prime hne hd
  · exact unmask_eq lib hp hmodulus hflag hmod hC
  · intro hpos
    exact unmask_other_ne lib hp hq hne hmodulus hflag hpos hmod hC

theorem solution_recovers_flag_proth :
    ∃ out, task searchNumber (467 * 2 ^ (246 + 1) + 1) (757 * 2 ^ (245 + 1) + 1)
        (3931 * 2 ^ (1011 + 1) + 1) [0x4e] [0x61] [0x62] = .ok out ∧
      (∃ N, step1 searchNumber out.Ca out.Cb = .ok N ∧
        (467 * 2 ^ (246 + 1) + 1) * (757 * 2 ^ (245 + 1) + 1) ∣ N) ∧
      (∀ draws P Q rest, factors searchNumber out
          ((467 * 2 ^ (246 + 1) + 1) * (757 * 2 ^ (245 + 1) + 1)) draws = .ok ((P, Q), rest) →
        (P = 467 * 2 ^ (246 + 1) + 1 ∧ Q = 757 * 2 ^ (245 + 1) + 1) ∨
          (P = 757 * 2 ^ (245 + 1) + 1 ∧ Q = 467 * 2 ^ (246 + 1) + 1)) ∧
      (∃ g, ∀ rest, ∃ P Q, factors searchNumber out
        ((467 * 2 ^ (246 + 1) + 1) * (757 * 2 ^ (245 + 1) + 1)) (g :: rest) = .ok ((P, Q), rest)) ∧
      unmask searchNumber out (467 * 2 ^ (246 + 1) + 1) =
        .ok (searchNumber.bytesToLong [0x4e]) ∧
      (0 < searchNumber.bytesToLong [0x4e] →
        ∃ x, unmask searchNumber out (757 * 2 ^ (245 + 1) + 1) = .ok x ∧
          x ≠ searchNumber.bytesToLong [0x4e]) :=
  solution_recovers_flag searchNumber primeOfBits_256 primeOfBits_256' (by decide +kernel)
    primeOfBits_1024 (by decide +kernel) [0x4e] [0x61] [0x62] (by decide +kernel)

end Whuctf.Imitate
