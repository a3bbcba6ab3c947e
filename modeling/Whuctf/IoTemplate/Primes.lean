import Mathlib.Data.Nat.Digits.Lemmas
import Mathlib.Data.Nat.Prime.Defs
import Whuctf.Library.Draws
import Whuctf.Library.Python
import Whuctf.Library.Refinement

/-!
# Primes of the input and output template

`gen_primes` of `chall.py` multiplies primes of `balance` bits until the product nearly has `nbit` bits,
then draws two primes of one size until the whole product is one below a prime, adjusting their size to
the bit length of the product.

What is returned is a prime of the intended structure in every run.  Its size is looked at only to
adjust the next draws: a product of the wrong size is accepted when it is one below a prime, and then
the adjustment comes too late.

A run is given by the values that `getPrime` returns in the first loop, in order, and by the pairs that
it returns in the second.
-/

namespace Whuctf.IoTemplate

open Draws Python

/-! ## The program -/

/-- `len(bin(p)[2:])`, the number of binary digits; zero has one digit. -/
def bitLength (p : ℕ) : ℕ := (Numerals.numeral 2 p).length

/-- A call `getPrime(N)` that returns `value`.  The candidates of the library have their lowest bit set,
so two is never returned, not even for two bits. -/
def getPrime (N : ℤ) (value : ℕ) : Except (Stop PyError) ℕ :=
  if N < 2 then .error (.raises .valueError)
  else if value.Prime ∧ value % 2 = 1 ∧ (bitLength value : ℤ) = N then .ok value
  else .error .notARun

/-- The first loop of `gen_primes`, from the product `p` on. -/
def multiplyFactors (nbit balance p : ℕ) : List ℕ → Except (Stop PyError) ℕ
  | [] => if (bitLength p : ℤ) < nbit - 2 * balance then .error .notARun else .ok p
  | value :: values =>
      if (bitLength p : ℤ) < nbit - 2 * balance then do
        let factor ← getPrime balance value
        multiplyFactors nbit balance (p * factor) values
      else .error .notARun

/-- The second loop of `gen_primes`, at the size `leftBit`: a pair is drawn, the size adjusted by the
bit length of the product, and the product returned with one added when that is prime. -/
def drawPairs (isPrime : ℕ → Bool) (nbit p : ℕ) (leftBit : ℤ) :
    List (ℕ × ℕ) → Except (Stop PyError) ℕ
  | [] => .error .notARun
  | pair :: pairs => do
      let r ← getPrime leftBit pair.1
      let s ← getPrime leftBit pair.2
      let _p := p * r * s
      let shorter := if bitLength _p < nbit then leftBit + 1 else leftBit
      let leftBit := if bitLength _p > nbit then shorter - 1 else shorter
      if isPrime (_p + 1) then
        -- the values of a run are those that its calls return, and no others
        if pairs = [] then return _p + 1 else throw .notARun
      else drawPairs isPrime nbit p leftBit pairs

/-- `gen_primes`: the product of the first loop, and with it the second one, whose first size is half
of the bits that are missing. -/
def genPrimes (isPrime : ℕ → Bool) (nbit balance : ℕ) (factors : List ℕ) (pairs : List (ℕ × ℕ)) :
    Except (Stop PyError) ℕ := do
  let p ← multiplyFactors nbit balance 2 factors
  let leftBit : ℤ := (nbit - bitLength p) / 2
  drawPairs isPrime nbit p leftBit pairs

/-! ## Bit lengths -/

lemma bitLength_eq (n : ℕ) : bitLength n = Nat.log 2 n + 1 := by
  have hdigits : bitLength n = (Numerals.digitsOf 2 n).length := List.length_map ..
  rw [hdigits, Numerals.digitsOf]
  by_cases hn : n = 0
  · simp [hn]
  · rw [if_neg hn, List.length_reverse, Nat.length_digits 2 n (by decide) hn]

/-- The successor of an even number has its bit length, as only the last digit changes. -/
lemma bitLength_two_mul_add_one {k : ℕ} (hk : 0 < k) :
    bitLength (2 * k + 1) = bitLength (2 * k) := by
  have hhalf : (2 * k + 1) / 2 = 2 * k / 2 := by omega
  rw [bitLength_eq, bitLength_eq, Nat.log_of_one_lt_of_le (by decide) (show 2 ≤ 2 * k + 1 by omega),
    Nat.log_of_one_lt_of_le (by decide) (show 2 ≤ 2 * k by omega), hhalf]

/-! ## What the loops return -/

lemma getPrime_eq_ok {N : ℤ} {value p : ℕ} (h : getPrime N value = .ok p) :
    p = value ∧ value.Prime ∧ (bitLength value : ℤ) = N := by
  unfold getPrime at h
  split_ifs at h with hsmall hvalue
  cases h
  exact ⟨rfl, hvalue.1, hvalue.2.2⟩

/-- The first loop returns the product of its values, which are primes of `balance` bits. -/
lemma multiplyFactors_eq_ok {nbit balance p q : ℕ} {factors : List ℕ}
    (h : multiplyFactors nbit balance p factors = .ok q) :
    q = p * factors.prod ∧ ∀ f ∈ factors, f.Prime ∧ bitLength f = balance := by
  induction factors generalizing p with
  | nil =>
    rw [multiplyFactors] at h
    split_ifs at h with hshort
    cases h
    simp
  | cons value values ih =>
    rw [multiplyFactors] at h
    split_ifs at h with hshort
    obtain ⟨factor, hfactor, hrest⟩ := exists_of_bind_eq_ok h
    obtain ⟨rfl, hprime, hbits⟩ := getPrime_eq_ok hfactor
    obtain ⟨hq, hvalues⟩ := ih hrest
    constructor
    · rw [hq, List.prod_cons, mul_assoc]
    · intro f hf
      rcases List.mem_cons.mp hf with rfl | hf
      · exact ⟨hprime, by omega⟩
      · exact hvalues f hf

/-- The second loop returns at the first pair whose product is one below a prime; the primes of a pair
have one size. -/
lemma drawPairs_eq_ok {isPrime : ℕ → Bool} {nbit p q : ℕ} {leftBit : ℤ} {pairs : List (ℕ × ℕ)}
    (h : drawPairs isPrime nbit p leftBit pairs = .ok q) :
    ∃ earlier r s, pairs = earlier ++ [(r, s)] ∧
      (∀ pair ∈ earlier, isPrime (p * pair.1 * pair.2 + 1) = false) ∧
      isPrime (p * r * s + 1) = true ∧ q = p * r * s + 1 ∧
      r.Prime ∧ s.Prime ∧ bitLength r = bitLength s := by
  induction pairs generalizing leftBit with
  | nil => cases h
  | cons pair pairs ih =>
    rw [drawPairs] at h
    obtain ⟨r, hr, hsecond⟩ := exists_of_bind_eq_ok h
    obtain ⟨s, hs, hrest⟩ := exists_of_bind_eq_ok hsecond
    obtain ⟨rfl, hrprime, hrbits⟩ := getPrime_eq_ok hr
    obtain ⟨rfl, hsprime, hsbits⟩ := getPrime_eq_ok hs
    by_cases haccepted : isPrime (p * pair.1 * pair.2 + 1) = true
    · simp only [haccepted, if_true] at hrest
      by_cases hpairs : pairs = []
      · rw [if_pos hpairs] at hrest
        cases hrest
        exact ⟨[], pair.1, pair.2, by rw [hpairs]; rfl, by simp, haccepted, rfl, hrprime, hsprime,
          by omega⟩
      · rw [if_neg hpairs] at hrest
        cases hrest
    · simp only [haccepted, Bool.false_eq_true, if_false] at hrest
      obtain ⟨earlier, r, s, rfl, hearlier, hlast⟩ := ih hrest
      refine ⟨pair :: earlier, r, s, rfl, ?_, hlast⟩
      intro x hx
      rcases List.mem_cons.mp hx with rfl | hx
      · exact Bool.eq_false_of_not_eq_true haccepted
      · exact hearlier x hx

/-! ## When the size is right

Every pass of the second loop but the last has given a product that is not one below a prime, or else
it would have been the last.  So the size of the result is that of the first product that is. -/

/-- A number whose predecessor is twice a product of primes of `balance` bits and of two primes of equal
size. -/
def Balanced (balance p : ℕ) : Prop :=
  ∃ (factors : List ℕ) (r s : ℕ), p - 1 = 2 * factors.prod * r * s ∧
    (∀ f ∈ factors, f.Prime ∧ bitLength f = balance) ∧
    r.Prime ∧ s.Prime ∧ bitLength r = bitLength s

lemma genPrimes_eq_ok {isPrime : ℕ → Bool} {nbit balance p : ℕ} {factors : List ℕ}
    {pairs : List (ℕ × ℕ)} (h : genPrimes isPrime nbit balance factors pairs = .ok p) :
    Balanced balance p ∧ isPrime p = true ∧
      (bitLength p = nbit ↔ ∀ pair ∈ pairs, bitLength (2 * factors.prod * pair.1 * pair.2) ≠ nbit →
        isPrime (2 * factors.prod * pair.1 * pair.2 + 1) = false) := by
  obtain ⟨q, hq, h⟩ := exists_of_bind_eq_ok h
  obtain ⟨rfl, hfactors⟩ := multiplyFactors_eq_ok hq
  obtain ⟨earlier, r, s, rfl, hearlier, haccepted, rfl, hr, hs, hbits⟩ := drawPairs_eq_ok h
  have hpos : 0 < factors.prod * r * s := by
    have hfactor : 0 < factors.prod :=
      Nat.pos_of_ne_zero (List.prod_ne_zero fun hzero => (hfactors 0 hzero).1.ne_zero rfl)
    exact Nat.mul_pos (Nat.mul_pos hfactor hr.pos) hs.pos
  have hsize : bitLength (2 * factors.prod * r * s + 1) = bitLength (2 * factors.prod * r * s) := by
    have heven : 2 * factors.prod * r * s = 2 * (factors.prod * r * s) := by ring
    rw [heven]
    exact bitLength_two_mul_add_one hpos
  refine ⟨⟨factors, r, s, Nat.add_sub_cancel .., hfactors, hr, hs, hbits⟩, haccepted, ?_⟩
  rw [hsize]
  constructor
  · intro hnbit pair hpair hwrong
    rcases List.mem_append.mp hpair with hpair | hpair
    · exact hearlier pair hpair
    · obtain rfl := List.mem_singleton.mp hpair
      exact absurd hnbit hwrong
  · intro hall
    by_contra hwrong
    have hrejected := hall (r, s) (by simp) hwrong
    rw [haccepted] at hrejected
    cases hrejected

/-- **Primes of the right size.**  Every run that returns gives a prime of the intended structure, and
it has `nbit` bits exactly when no pair gave a product of another size that is one below a prime. -/
theorem genPrimes_meets_iff {isPrime : ℕ → Bool} (hisPrime : ∀ n, isPrime n = true ↔ n.Prime)
    {nbit balance p : ℕ} {factors : List ℕ} {pairs : List (ℕ × ℕ)}
    (h : genPrimes isPrime nbit balance factors pairs = .ok p) :
    p.Prime ∧ bitLength p = nbit ∧ Balanced balance p ↔
      ∀ pair ∈ pairs, bitLength (2 * factors.prod * pair.1 * pair.2) ≠ nbit →
        ¬(2 * factors.prod * pair.1 * pair.2 + 1).Prime := by
  obtain ⟨hbalanced, hprime, hsize⟩ := genPrimes_eq_ok h
  have hfalse : ∀ n, isPrime n = false ↔ ¬n.Prime := by
    intro n
    rw [← hisPrime, Bool.not_eq_true]
  simp only [hfalse] at hsize
  rw [← hsize]
  constructor
  · exact fun hmeets => hmeets.2.1
  · exact fun hbits => ⟨(hisPrime p).mp hprime, hbits, hbalanced⟩

set_option maxRecDepth 4000 in
/-- A run that returns `491`, of nine bits, at its second pair. -/
theorem genPrimes_meets_491 :
    Nat.Prime 491 ∧ bitLength 491 = 9 ∧ Balanced 3 491 ↔
      ∀ pair ∈ [(3, 3), (7, 7)], bitLength (2 * [5].prod * pair.1 * pair.2) ≠ 9 →
        ¬(2 * [5].prod * pair.1 * pair.2 + 1).Prime :=
  genPrimes_meets_iff (fun n => (decide_eq_true_iff : decide n.Prime = true ↔ n.Prime)) (by decide)

/-- A run that returns `127`, of seven bits in place of nine. -/
theorem genPrimes_127 :
    genPrimes (fun n => decide n.Prime) 9 3 [7] [(3, 3)] = .ok 127 ∧
      ¬(Nat.Prime 127 ∧ bitLength 127 = 9 ∧ Balanced 3 127) := by
  constructor
  · decide
  · rintro ⟨-, hbits, -⟩
    revert hbits
    decide

end Whuctf.IoTemplate
