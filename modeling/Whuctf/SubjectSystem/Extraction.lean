import Mathlib.Data.List.TakeWhile
import Whuctf.Library.Bisection

/-!
# The blind injection of the subject system

`exp.py` reads a secret from the database one character at a time.  The order of the rows that
`course.php` returns answers whether the code of a character is greater than a number, and a bisection
between 32 and 128 finds the code.

The ends of the interval stand for codes outside it, 32 also for the end of the secret.  A pass that
finds one of them appends nothing, and the loop ends when the result has not grown.

Nothing is assumed of the secret.  Whatever its codes are, the script returns the longest part at its
start that it can read, and does so after finitely many passes.
-/

namespace Whuctf.SubjectSystem

open Bisection

/-! ## The program -/

/-- The result after a pass of the outer loop.  `oracle pos ascii` is the answer to the payload. -/
def extend (oracle : ℕ → ℕ → Bool) (result : List Char) : List Char :=
  let mid := bisect (oracle (result.length + 1)) 32 128
  if mid ≠ 32 ∧ mid ≠ 128 then result ++ [Char.ofNat mid] else result

/-- The outer loop of `exp.py`, for at most `fuel` tests of its condition. -/
def extraction (oracle : ℕ → ℕ → Bool) : ℕ → ℤ → List Char → Option (List Char)
  | 0, _, _ => none
  | fuel + 1, reslen, result =>
      if (result.length : ℤ) ≠ reslen then
        extraction oracle fuel result.length (extend oracle result)
      else some result

/-- `substr(s, pos, 1)` of SQL, with positions from one. -/
def substr (s : List ℕ) (pos : ℕ) : List ℕ := (s.drop (pos - 1)).take 1

/-- `ascii(text)` of SQL: the first code, and zero for an empty text. -/
def ascii (text : List ℕ) : ℕ := text.headD 0

/-- The answers of the database: `ascii(substr(s, pos, 1)) > mid`. -/
def database (s : List ℕ) (pos mid : ℕ) : Bool := mid < ascii (substr s pos)

/-! ## What it extracts

A pass finds the code of a position when it lies in the interval, and an end of the interval otherwise.
So the result grows along the secret until a code is not readable. -/

/-- A code that the loop takes for a character: the space and what comes before it end the extraction,
and so does what is not ASCII. -/
def Readable (c : ℕ) : Prop := 33 ≤ c ∧ c ≤ 127

instance : DecidablePred Readable := fun _ => inferInstanceAs (Decidable (_ ∧ _))

/-- A pass against the database appends the next code of the secret, if it is readable. -/
lemma extend_database (known rest : List ℕ) :
    extend (database (known ++ rest)) (known.map Char.ofNat) =
      (known ++ (rest.take 1).filter Readable).map Char.ofNat := by
  have hdrop : (known ++ rest).drop known.length = rest := List.drop_left
  obtain ⟨code, hcode⟩ : ∃ code, code = ascii (rest.take 1) := ⟨_, rfl⟩
  have hbisect : bisect (database (known ++ rest) (known.length + 1)) 32 128 =
      max 32 (min code 128) := by
    apply bisect_eq (by decide)
    intro mid _ _
    rw [database, substr, Nat.add_sub_cancel, hdrop, decide_eq_true_iff, hcode]
  rw [extend, List.length_map, hbisect]
  cases rest with
  | nil =>
    obtain rfl : code = 0 := hcode
    simp
  | cons c rest =>
    obtain rfl : code = c := hcode
    rw [List.take_succ_cons, List.take_zero]
    by_cases hc : Readable code
    · obtain ⟨hlow, hhigh⟩ := id hc
      have hmid : max 32 (min code 128) = code := by omega
      rw [hmid, if_pos (by omega), List.filter_cons_of_pos (by simpa using hc)]
      simp
    · have hends : ¬(max 32 (min code 128) ≠ 32 ∧ max 32 (min code 128) ≠ 128) := by
        unfold Readable at hc
        omega
      rw [if_neg hends, List.filter_cons_of_neg (by simpa using hc)]
      simp

/-- The loop, from a state in which its condition holds. -/
lemma extraction_database (known rest : List ℕ) {reslen : ℤ} (hreslen : (known.length : ℤ) ≠ reslen)
    {fuel : ℕ} (hfuel : rest.length + 2 ≤ fuel) :
    extraction (database (known ++ rest)) fuel reslen (known.map Char.ofNat) =
      some ((known ++ rest.takeWhile Readable).map Char.ofNat) := by
  have hstop : ∀ {fuel : ℕ} (result : List Char) (oracle : ℕ → ℕ → Bool), 1 ≤ fuel →
      extraction oracle fuel result.length result = some result := by
    intro fuel result oracle hpos
    obtain ⟨fuel, rfl⟩ : ∃ k, fuel = k + 1 := ⟨fuel - 1, by omega⟩
    rw [extraction, if_neg (by simp)]
  induction rest generalizing known reslen fuel with
  | nil =>
    obtain ⟨fuel, rfl⟩ : ∃ k, fuel = k + 1 := ⟨fuel - 1, by omega⟩
    rw [extraction, if_pos (by simpa using hreslen), extend_database]
    simp only [List.take_nil, List.filter_nil, List.append_nil, List.takeWhile_nil]
    exact hstop _ _ (by omega)
  | cons c rest ih =>
    obtain ⟨fuel, rfl⟩ : ∃ k, fuel = k + 1 := ⟨fuel - 1, by omega⟩
    rw [List.length_cons] at hfuel
    rw [extraction, if_pos (by simpa using hreslen), extend_database, List.take_succ_cons,
      List.take_zero]
    by_cases hc : Readable c
    · have hgrown : ((known ++ [c]).length : ℤ) ≠ known.length := by
        rw [List.length_append, List.length_singleton]
        omega
      have hnext := ih (known ++ [c]) hgrown (show rest.length + 2 ≤ fuel by omega)
      rw [List.filter_cons_of_pos (by simpa using hc), List.filter_nil,
        List.takeWhile_cons_of_pos (by simpa using hc), List.length_map]
      rwa [List.append_assoc, List.append_assoc, List.singleton_append] at hnext
    · rw [List.filter_cons_of_neg (by simpa using hc), List.filter_nil,
        List.takeWhile_cons_of_neg (by simpa using hc), List.append_nil]
      exact hstop _ _ (by omega)

/-- **Extraction.**  For every secret the loop ends, and its result is the longest prefix of the secret
with codes between 33 and 127 only. -/
theorem extraction_longest_prefix (s : List ℕ) :
    ∃ t, t <+: s ∧ (∀ c ∈ t, 33 ≤ c ∧ c ≤ 127) ∧
      (∀ u, u <+: s → (∀ c ∈ u, 33 ≤ c ∧ c ≤ 127) → u <+: t) ∧
      ∀ fuel, s.length + 2 ≤ fuel →
        extraction (database s) fuel (-1) [] = some (t.map Char.ofNat) := by
  refine ⟨s.takeWhile Readable, List.takeWhile_prefix _, ?_, ?_, ?_⟩
  · intro c hc
    have hreadable := List.mem_takeWhile_imp hc
    exact of_decide_eq_true hreadable
  · rintro u ⟨v, rfl⟩ hu
    have hall : ∀ c ∈ u, decide (Readable c) = true := fun c hc => decide_eq_true (hu c hc)
    rw [List.takeWhile_append_of_pos hall]
    exact List.prefix_append u _
  · intro fuel hfuel
    exact extraction_database [] s (by decide) hfuel

end Whuctf.SubjectSystem
