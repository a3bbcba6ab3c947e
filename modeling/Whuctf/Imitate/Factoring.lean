import Mathlib.FieldTheory.Finite.Basic
import Whuctf.Library.Draws
import Whuctf.Library.Python
import Whuctf.Library.Refinement
import Whuctf.Library.Splitting

/-!
# Factoring with both exponents

`divide_pq` of `std.py` takes random bases to the powers `k / 2`, `k / 4`, … of `k = e * d - 1`, down to
the first odd exponent, and returns when a power shares a factor with the modulus after one is
subtracted.

A base fails when its orders modulo the two primes have the same power of two.  A base that is one
modulo one prime and minus one modulo the other never fails, so there is always a base to draw.

The loop over bases ends only with a success, so it is treated as a loop that draws: `iteration` is one
pass of it, and what it returns is a last pass that succeeds after passes that have not.
-/

namespace Whuctf.Imitate

open Draws Python

/-- `pow(g, t, n)`: a negative exponent takes the inverse of `g`. -/
def powMod (g : ℕ) (t : ℤ) (n : ℕ) : Except PyError ℕ :=
  if n = 0 then .error .valueError
  else if 0 ≤ t then .ok (g ^ t.toNat % n)
  else do return (← searchInverse .valueError g n) ^ (-t).toNat % n

/-- The inner loop of `divide_pq`, at exponent `t`: the factors that it returns, or none when it breaks
off. -/
def halvings (g n : ℕ) (t : ℤ) : Except (Stop PyError) (Option (ℕ × ℕ)) :=
  if t % 2 ≠ 0 then .ok none
  -- from zero on the exponent stays zero and every power is one
  else if t = 0 then .error .endless
  else match powMod g (t / 2) n with
    | .error e => .error (.raises e)
    | .ok x =>
        if 1 < x ∧ 1 < Nat.gcd (x - 1) n then
          let p := Nat.gcd (x - 1) n
          .ok (some (p, n / p))
        else halvings g n (t / 2)
termination_by t.natAbs

/-- One iteration of the outer loop of `divide_pq`: a base is drawn and the inner loop run on it, which
returns factors or goes on to another base. -/
def iteration (n : ℕ) (k : ℤ) : Run PyError (Unit ⊕ ℕ × ℕ) := do
  let g ← randint 2 (n - 1)
  match ← (halvings g n k : Except (Stop PyError) (Option (ℕ × ℕ))) with
  | none => return .inl ()
  | some factors => return .inr factors

/-- `divide_pq`: bases are drawn until one of them returns factors. -/
def dividePq (e d : ℤ) (n : ℕ) : Run PyError (ℕ × ℕ) :=
  let k := e * d - 1
  loop (fun _ => iteration n k) ()

/-! ## What is returned divides

The function returns a greatest common divisor that is neither one nor the modulus, and the quotient.
For this nothing is asked of the modulus or of the exponents. -/

lemma powMod_lt {g n x : ℕ} {t : ℤ} (h : powMod g t n = .ok x) : x < n := by
  by_cases hn : n = 0
  · rw [powMod, if_pos hn] at h
    cases h
  · rw [powMod, if_neg hn] at h
    by_cases ht : 0 ≤ t
    · rw [if_pos ht] at h
      cases h
      exact Nat.mod_lt _ (Nat.pos_of_ne_zero hn)
    · rw [if_neg ht] at h
      obtain ⟨s, -, hs⟩ := exists_of_bind_eq_ok h
      cases hs
      exact Nat.mod_lt _ (Nat.pos_of_ne_zero hn)

/-- The inner loop returns a proper divisor and its complement, whatever the base and the exponent
were. -/
lemma halvings_sound {g n a b : ℕ} {t : ℤ} (h : halvings g n t = .ok (some (a, b))) :
    1 < a ∧ a < n ∧ a * b = n := by
  induction t using halvings.induct g n with
  | case1 t hodd =>
    rw [halvings, if_pos hodd] at h
    cases h
  | case2 hodd =>
    rw [halvings, if_neg hodd, if_pos rfl] at h
    cases h
  | case3 t hodd hzero e hpow =>
    rw [halvings, if_neg hodd, if_neg hzero, hpow] at h
    cases h
  | case4 t hodd hzero x hpow hgcd =>
    rw [halvings, if_neg hodd, if_neg hzero, hpow] at h
    simp only [if_pos hgcd, Except.ok.injEq, Option.some.injEq, Prod.mk.injEq] at h
    obtain ⟨rfl, rfl⟩ := h
    have hlt := powMod_lt hpow
    have hle := Nat.gcd_le_left n (show 0 < x - 1 by omega)
    exact ⟨hgcd.2, by omega, Nat.mul_div_cancel' (Nat.gcd_dvd_right _ _)⟩
  | case5 t hodd hzero x hpow hgcd ih =>
    rw [halvings, if_neg hodd, if_neg hzero, hpow] at h
    simp only [if_neg hgcd] at h
    exact ih h

/-- A pass of the outer loop is a draw and the inner loop. -/
lemma iteration_eq_ok {n : ℕ} {k : ℤ} {next : Unit ⊕ ℕ × ℕ} {draws rest : List ℕ}
    (h : iteration n k draws = .ok (next, rest)) :
    ∃ g, draws = g :: rest ∧ 2 ≤ g ∧ g ≤ n - 1 ∧
      halvings g n k = .ok (next.elim (fun _ => none) some) := by
  obtain ⟨g, mid, hdraw, h⟩ := bind_eq_ok h
  obtain ⟨factors, mid', hhalvings, h⟩ := bind_eq_ok h
  obtain ⟨hg2, hgn, rfl⟩ := randint_eq_ok hdraw
  cases hrun : halvings g n k with
  | error stop =>
    rw [hrun] at hhalvings
    cases hhalvings
  | ok found =>
    rw [hrun] at hhalvings
    cases hhalvings
    cases factors with
    | none =>
      cases h
      exact ⟨g, rfl, hg2, hgn, hrun⟩
    | some pair =>
      cases h
      exact ⟨g, rfl, hg2, hgn, hrun⟩

lemma iteration_of_halvings {n g : ℕ} {k : ℤ} {found : Option (ℕ × ℕ)} (hg2 : 2 ≤ g) (hgn : g ≤ n - 1)
    (h : halvings g n k = .ok found) (rest : List ℕ) :
    iteration n k (g :: rest) = .ok (found.elim (.inl ()) .inr, rest) := by
  rw [iteration, bind_of_eq_ok (randint_cons hg2 hgn rest), h]
  cases found with
  | none => rfl
  | some pair => rfl

lemma iteration_consumes (n : ℕ) (k : ℤ) : Consumes fun _ : Unit => iteration n k := by
  intro _ draws next rest h
  obtain ⟨g, rfl, -⟩ := iteration_eq_ok h
  exact Nat.lt_succ_self _

/-- Whatever is drawn, what `divide_pq` returns is a proper divisor and its complement. -/
lemma dividePq_sound {e d : ℤ} {n a b : ℕ} {draws rest : List ℕ}
    (h : dividePq e d n draws = .ok ((a, b), rest)) : 1 < a ∧ a < n ∧ a * b = n := by
  obtain ⟨last, -, hlast⟩ := (loop_eq_ok_iff (iteration_consumes n (e * d - 1))).mp h
  obtain ⟨g, -, -, -, hhalvings⟩ := iteration_eq_ok hlast
  exact halvings_sound hhalvings

/-! ## Which bases succeed

The exponents of the inner loop are a fixed odd number times falling powers of two.  At which of them a
power becomes one modulo a prime is decided by the order of the base. -/

/-- The inner loop on a positive exponent: it returns at the first of the halved exponents whose power
shares a factor with the modulus after one is subtracted. -/
lemma halvings_of_odd {g n m : ℕ} (hn : n ≠ 0) (hm : Odd m) (s : ℕ) :
    ∃ found, halvings g n ((2 ^ s * m : ℕ) : ℤ) = .ok found ∧
      (found.isSome = true ↔ ∃ j < s, 1 < g ^ (2 ^ j * m) % n ∧
        1 < Nat.gcd (g ^ (2 ^ j * m) % n - 1) n) := by
  induction s with
  | zero =>
    have hodd : ((2 ^ 0 * m : ℕ) : ℤ) % 2 ≠ 0 := by
      obtain ⟨c, rfl⟩ := hm
      omega
    refine ⟨none, by rw [halvings, if_pos hodd], ?_⟩
    simp
  | succ s ih =>
    obtain ⟨t, ht⟩ : ∃ t, t = 2 ^ s * m := ⟨_, rfl⟩
    have hdouble : 2 ^ (s + 1) * m = 2 * t := by rw [ht, pow_succ]; ring
    have htpos : 0 < t := by
      rw [ht]
      exact Nat.mul_pos (by positivity) hm.pos
    have heven : ¬((2 ^ (s + 1) * m : ℕ) : ℤ) % 2 ≠ 0 := by omega
    have hzero : ¬((2 ^ (s + 1) * m : ℕ) : ℤ) = 0 := by omega
    have hhalf : ((2 ^ (s + 1) * m : ℕ) : ℤ) / 2 = t := by omega
    have hpow : powMod g (t : ℤ) n = .ok (g ^ t % n) := by
      rw [powMod, if_neg hn, if_pos (by omega), Int.toNat_natCast]
    rw [halvings, if_neg heven, if_neg hzero, hhalf, hpow]
    by_cases hgcd : 1 < g ^ t % n ∧ 1 < Nat.gcd (g ^ t % n - 1) n
    · simp only [if_pos hgcd]
      refine ⟨_, rfl, ?_⟩
      simp only [Option.isSome_some, true_iff]
      exact ⟨s, Nat.lt_succ_self s, ht ▸ hgcd⟩
    · simp only [if_neg hgcd]
      rw [← ht] at ih
      obtain ⟨found, hfound, hiff⟩ := ih
      refine ⟨found, hfound, hiff.trans ?_⟩
      constructor
      · rintro ⟨j, hj, hsplit⟩
        exact ⟨j, by omega, hsplit⟩
      · rintro ⟨j, hj, hsplit⟩
        rcases Nat.lt_succ_iff_lt_or_eq.mp hj with hj | rfl
        · exact ⟨j, hj, hsplit⟩
        · exact absurd (ht ▸ hsplit) hgcd

/-- An exponent that `(p - 1) * (q - 1)` divides, as a power of two and an odd number. -/
lemma exists_exponent {p q : ℕ} {e d : ℤ} (hpos : 1 < e * d)
    (hinv : e * d ≡ 1 [ZMOD ((p - 1) * (q - 1) : ℕ)]) :
    ∃ s m, Odd m ∧ e * d - 1 = ((2 ^ s * m : ℕ) : ℤ) ∧ (p - 1) * (q - 1) ∣ 2 ^ s * m := by
  obtain ⟨k, hk⟩ : ∃ k : ℕ, e * d - 1 = k := ⟨(e * d - 1).toNat, by omega⟩
  have hk0 : k ≠ 0 := by omega
  obtain ⟨s, m, hm, hsm⟩ := Nat.exists_eq_two_pow_mul_odd hk0
  have hdvd : (((p - 1) * (q - 1) : ℕ) : ℤ) ∣ e * d - 1 := hinv.symm.dvd
  refine ⟨s, m, hm, by rw [hk, hsm], ?_⟩
  rw [hk, hsm] at hdvd
  exact Int.natCast_dvd_natCast.mp hdvd

/-- Fermat's theorem for a base coprime to a product, at any multiple of the order of the units. -/
lemma pow_eq_one_of_dvd {p q g k : ℕ} (hp : p.Prime) (hg : Nat.Coprime g (p * q))
    (hk : p - 1 ∣ k) : (g : ZMod p) ^ k = 1 := by
  have hfact : Fact p.Prime := ⟨hp⟩
  have hunit : (g : ZMod p) ≠ 0 := by
    rw [Ne, ZMod.natCast_eq_zero_iff]
    intro hdvd
    exact hp.one_lt.ne' (Nat.eq_one_of_dvd_coprimes hg hdvd (Dvd.intro _ rfl))
  obtain ⟨c, rfl⟩ := hk
  rw [pow_mul, ZMod.pow_card_sub_one_eq_one hunit, one_pow]

/-- A base coprime to the modulus succeeds exactly when its orders have different powers of two. -/
lemma iteration_returns_iff {p q : ℕ} (hp : p.Prime) (hq : q.Prime) (hne : p ≠ q) {e d : ℤ}
    (hpos : 1 < e * d) (hinv : e * d ≡ 1 [ZMOD ((p - 1) * (q - 1) : ℕ)]) {g : ℕ} (hg2 : 2 ≤ g)
    (hgn : g ≤ p * q - 1) (hg : Nat.Coprime g (p * q)) (rest : List ℕ) :
    (∃ a b, iteration (p * q) (e * d - 1) (g :: rest) = .ok (.inr (a, b), rest)) ↔
      padicValNat 2 (orderOf (g : ZMod p)) ≠ padicValNat 2 (orderOf (g : ZMod q)) := by
  obtain ⟨s, m, hm, hk, hdvd⟩ := exists_exponent hpos hinv
  have hn : p * q ≠ 0 := by omega
  have hgp := pow_eq_one_of_dvd hp hg ((Dvd.intro _ rfl).trans hdvd)
  have hgq := pow_eq_one_of_dvd hq (mul_comm p q ▸ hg) ((Dvd.intro_left _ rfl).trans hdvd)
  obtain ⟨found, hfound, hsome⟩ := halvings_of_odd (g := g) hn hm s
  have hsplit : found.isSome = true ↔
      padicValNat 2 (orderOf (g : ZMod p)) ≠ padicValNat 2 (orderOf (g : ZMod q)) := by
    rw [hsome, ← Splitting.exists_split_iff hm hgp hgq]
    simp only [Splitting.one_lt_gcd_iff hp hq hne (Nat.Coprime.pow_left _ hg)]
  rw [← hsplit, hk, iteration_of_halvings hg2 hgn hfound]
  cases found with
  | none => simp
  | some pair =>
    obtain ⟨a, b⟩ := pair
    simp

/-- **Factoring with both exponents.**  For distinct primes and every pair of exponents that are
inverse to each other: whatever is drawn, what `divide_pq` returns is a proper divisor of the modulus
and its complement; a base coprime to the modulus succeeds exactly when its orders modulo the two
primes have different powers of two; and some base succeeds. -/
theorem dividePq_factors {p q : ℕ} (hp : p.Prime) (hq : q.Prime) (hne : p ≠ q)
    {e d : ℤ} (hpos : 1 < e * d)
    (hinv : e * d ≡ 1 [ZMOD ((p - 1) * (q - 1) : ℕ)]) :
    (∀ draws a b rest, dividePq e d (p * q) draws = .ok ((a, b), rest) →
      1 < a ∧ a < p * q ∧ a * b = p * q) ∧
    (∀ g rest, 2 ≤ g → g ≤ p * q - 1 → Nat.Coprime g (p * q) →
      ((∃ a b, iteration (p * q) (e * d - 1) (g :: rest) = .ok (.inr (a, b), rest)) ↔
        padicValNat 2 (orderOf (g : ZMod p)) ≠ padicValNat 2 (orderOf (g : ZMod q)))) ∧
    ∃ g, 2 ≤ g ∧ g ≤ p * q - 1 ∧ ∀ rest, ∃ a b,
      iteration (p * q) (e * d - 1) (g :: rest) = .ok (.inr (a, b), rest) := by
  refine ⟨fun draws a b rest h => dividePq_sound h, fun g rest hg2 hgn hg =>
    iteration_returns_iff hp hq hne hpos hinv hg2 hgn hg rest, ?_⟩
  obtain ⟨g, hg2, hgn, hg, horders⟩ := Splitting.exists_base hp hq hne
  refine ⟨g, hg2, by omega, fun rest => ?_⟩
  exact (iteration_returns_iff hp hq hne hpos hinv hg2 (by omega) hg rest).mpr horders

theorem dividePq_factors_fifteen :
    (∀ draws a b rest, dividePq 3 3 (3 * 5) draws = .ok ((a, b), rest) →
      1 < a ∧ a < 3 * 5 ∧ a * b = 3 * 5) ∧
    (∀ g rest, 2 ≤ g → g ≤ 3 * 5 - 1 → Nat.Coprime g (3 * 5) →
      ((∃ a b, iteration (3 * 5) (3 * 3 - 1) (g :: rest) = .ok (.inr (a, b), rest)) ↔
        padicValNat 2 (orderOf (g : ZMod 3)) ≠ padicValNat 2 (orderOf (g : ZMod 5)))) ∧
    ∃ g, 2 ≤ g ∧ g ≤ 3 * 5 - 1 ∧ ∀ rest, ∃ a b,
      iteration (3 * 5) (3 * 3 - 1) (g :: rest) = .ok (.inr (a, b), rest) :=
  dividePq_factors Nat.prime_three Nat.prime_five (by decide) (by decide) (by decide)

end Whuctf.Imitate
