import Mathlib.Data.Nat.Digits.Defs
import Mathlib.Data.List.Basic

/-!
# Numerals as texts

The text of a natural number in a base up to sixteen, with lower-case digits and without leading
zeros, and the number a text of digits denotes.  Reading inverts writing, and a concatenation of
texts of digits denotes the number whose digits are the concatenation.

Reading takes what a language's conversion takes of digits, upper case and leading zeros included, so
it is not the inverse of writing in the other direction.  A text denotes a number when it is not empty
and every character is a digit of the base; the number is then bounded by its length
(`of_parse_eq_some`).
-/

namespace Whuctf.Numerals

/-- The value of a digit of any base up to sixteen, in either case. -/
def digitValue (c : Char) : Option ℕ :=
  if '0' ≤ c ∧ c ≤ '9' then some (c.toNat - '0'.toNat)
  else if 'a' ≤ c ∧ c ≤ 'f' then some (c.toNat - 'a'.toNat + 10)
  else if 'A' ≤ c ∧ c ≤ 'F' then some (c.toNat - 'A'.toNat + 10)
  else none

/-- The value of a digit in base `b`, if the character is one of that base. -/
def digitIn (b : ℕ) (c : Char) : Option ℕ := (digitValue c).filter (· < b)

/-- The number a non-empty text of digits in base `b` denotes, the most significant digit first; `none`
for the empty text and for one with another character in it. -/
def parse (b : ℕ) (text : List Char) : Option ℕ :=
  if text = [] then none
  else (text.mapM (digitIn b)).map fun digits => Nat.ofDigits b digits.reverse

/-- The digits of a number, the most significant first; zero has one digit. -/
def digitsOf (b n : ℕ) : List ℕ := if n = 0 then [0] else (Nat.digits b n).reverse

/-- The text of a list of digits, one character for each. -/
def textOf (digits : List ℕ) : List Char := digits.map Nat.digitChar

/-- The text of a number in base `b`, without zeros in front. -/
def numeral (b n : ℕ) : List Char := textOf (digitsOf b n)

section Digits

variable {b n : ℕ}

lemma digitsOf_ne_nil : digitsOf b n ≠ [] := by
  unfold digitsOf
  by_cases h : n = 0
  · simp [h]
  · simp [h, Nat.digits_ne_nil_iff_ne_zero]

lemma lt_of_mem_digitsOf (hb : 1 < b) {d : ℕ} (hd : d ∈ digitsOf b n) : d < b := by
  unfold digitsOf at hd
  by_cases h : n = 0
  · simp only [if_pos h, List.mem_singleton] at hd
    omega
  · rw [if_neg h, List.mem_reverse] at hd
    exact Nat.digits_lt_base hb hd

lemma ofDigits_digitsOf : Nat.ofDigits b (digitsOf b n).reverse = n := by
  unfold digitsOf
  by_cases h : n = 0
  · simp [h, Nat.ofDigits_singleton]
  · rw [if_neg h, List.reverse_reverse, Nat.ofDigits_digits]

end Digits

section Parse

variable {b : ℕ}

lemma digitValue_digitChar : ∀ d < 16, digitValue (Nat.digitChar d) = some d := by decide

lemma digitIn_digitChar (hb : b ≤ 16) {d : ℕ} (hd : d < b) :
    digitIn b (Nat.digitChar d) = some d := by
  rw [digitIn, digitValue_digitChar d (by omega)]
  simp [hd]

lemma mapM_digitIn (hb : b ≤ 16) {digits : List ℕ} (h : ∀ d ∈ digits, d < b) :
    (textOf digits).mapM (digitIn b) = some digits := by
  induction digits with
  | nil => rfl
  | cons d rest ih =>
    have hfirst := digitIn_digitChar hb (h d List.mem_cons_self)
    have hrest := ih fun e he => h e (List.mem_cons_of_mem d he)
    rw [textOf, List.map_cons, List.mapM_cons, hfirst]
    show ((textOf rest).mapM (digitIn b) >>= fun tail => some (d :: tail)) = _
    rw [hrest]
    rfl

lemma parse_textOf (hb : b ≤ 16) {digits : List ℕ} (hne : digits ≠ []) (h : ∀ d ∈ digits, d < b) :
    parse b (textOf digits) = some (Nat.ofDigits b digits.reverse) := by
  have htext : textOf digits ≠ [] := by simpa [textOf] using hne
  rw [parse, if_neg htext, mapM_digitIn hb h]
  rfl

lemma parse_numeral (hb : 1 < b) (hb16 : b ≤ 16) (n : ℕ) : parse b (numeral b n) = some n := by
  rw [numeral, parse_textOf hb16 digitsOf_ne_nil fun _ hd => lt_of_mem_digitsOf hb hd,
    ofDigits_digitsOf]

lemma numeral_injective (hb : 1 < b) (hb16 : b ≤ 16) : Function.Injective (numeral b) := by
  intro m n h
  have hparse := parse_numeral hb hb16 m
  rw [h, parse_numeral hb hb16 n] at hparse
  exact (Option.some.inj hparse).symm

lemma of_mapM_digitIn {text : List Char} {digits : List ℕ}
    (h : text.mapM (digitIn b) = some digits) :
    digits.length = text.length ∧ (∀ d ∈ digits, d < b) ∧ ∀ c ∈ text, (digitIn b c).isSome := by
  induction text generalizing digits with
  | nil =>
    cases h
    exact ⟨rfl, nofun, nofun⟩
  | cons c text ih =>
    rw [List.mapM_cons] at h
    obtain ⟨d, hd, hrest⟩ := Option.bind_eq_some_iff.mp h
    obtain ⟨ds, hds, hpure⟩ := Option.bind_eq_some_iff.mp hrest
    cases hpure
    obtain ⟨hlength, hlt, hsome⟩ := ih hds
    have hdigit : d < b := by
      rw [digitIn, Option.filter_eq_some_iff] at hd
      exact of_decide_eq_true hd.2
    refine ⟨by rw [List.length_cons, List.length_cons, hlength], ?_, ?_⟩
    · exact List.forall_mem_cons.mpr ⟨hdigit, hlt⟩
    · exact List.forall_mem_cons.mpr ⟨by rw [hd, Option.isSome_some], hsome⟩

/-- A text that denotes a number is made of digits, which bound it. -/
lemma of_parse_eq_some (hb : 1 < b) {text : List Char} {n : ℕ} (h : parse b text = some n) :
    n < b ^ text.length ∧ ∀ c ∈ text, (digitIn b c).isSome := by
  rw [parse] at h
  split_ifs at h
  obtain ⟨digits, hdigits, rfl⟩ := Option.map_eq_some_iff.mp h
  obtain ⟨hlength, hlt, hsome⟩ := of_mapM_digitIn hdigits
  refine ⟨?_, hsome⟩
  rw [← hlength, ← List.length_reverse]
  exact Nat.ofDigits_lt_base_pow_length hb fun d hd => hlt d (List.mem_reverse.mp hd)

/-- The value of digits read after other digits: the latter move up by as many places as there are of
the former. -/
lemma ofDigits_reverse_append (high low : List ℕ) :
    Nat.ofDigits b (high ++ low).reverse =
      Nat.ofDigits b low.reverse + b ^ low.length * Nat.ofDigits b high.reverse := by
  rw [List.reverse_append, Nat.ofDigits_append, List.length_reverse]

end Parse

end Whuctf.Numerals
