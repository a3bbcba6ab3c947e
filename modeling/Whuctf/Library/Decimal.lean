import Mathlib.Data.Nat.Digits.Lemmas
import Mathlib.Algebra.Order.Field.Basic
import Mathlib.Algebra.Order.Ring.Unbundled.Rat
import Mathlib.Data.Nat.Cast.Order.Field
import Mathlib.Tactic.FieldSimp
import Mathlib.Tactic.LinearCombination
import Mathlib.Tactic.Positivity
import Whuctf.Library.Numerals

/-!
# Decimal numerals

A plain decimal numeral is a sign, digits, and digits after a point.  It has a text and a rational value.

Comparing a value with a bound that has `k` digits after the point comes down to comparing naturals:
`scaled k` is the number made of the digits before the point and the first `k` digits after it, with
zeros where the numeral has fewer (`le_magnitude_iff`, `magnitude_lt_iff`).

The digits are a list of `Fin 10` and the text is made from it, so every numeral is well formed.  What
a comparison of texts sees, the first characters of one, is read off the digits (`take_text_eq_iff` and
its variants).
-/

namespace Whuctf

/-- A plain decimal numeral; without digits after the point it has no point. -/
structure Decimal where
  negative : Bool
  whole : List (Fin 10)
  fraction : List (Fin 10)
  whole_ne : whole ≠ []

namespace Decimal

/-! ## Digits -/

/-- The number that digits denote, the most significant first. -/
def number (ds : List (Fin 10)) : ℕ := Nat.ofDigits 10 (ds.map Fin.val).reverse

section Number

lemma number_append (high low : List (Fin 10)) :
    number (high ++ low) = number high * 10 ^ low.length + number low := by
  rw [number, List.map_append, Numerals.ofDigits_reverse_append, List.length_map, add_comm, mul_comm]
  rfl

lemma number_lt (ds : List (Fin 10)) : number ds < 10 ^ ds.length := by
  have hlt := Nat.ofDigits_lt_base_pow_length (b := 10) (l := (ds.map Fin.val).reverse) (by decide)
    (by
      intro d hd
      obtain ⟨e, -, rfl⟩ := List.mem_map.mp (List.mem_reverse.mp hd)
      exact e.isLt)
  rwa [List.length_reverse, List.length_map] at hlt

lemma number_replicate_zero (k : ℕ) : number (List.replicate k 0) = 0 := by
  simp [number]

/-- Digits of one length are told apart by their numbers. -/
lemma eq_of_number_eq {ds es : List (Fin 10)} (hlength : ds.length = es.length)
    (h : number ds = number es) : ds = es := by
  have hbound : ∀ (l : List (Fin 10)), ∀ d ∈ (l.map Fin.val).reverse, d < 10 := by
    intro l d hd
    obtain ⟨e, -, rfl⟩ := List.mem_map.mp (List.mem_reverse.mp hd)
    exact e.isLt
  have hreverse := Nat.ofDigits_inj_of_len_eq (by decide) (by simpa using hlength) (hbound ds)
    (hbound es) h
  exact (List.map_inj_right fun _ _ => Fin.ext).mp (List.reverse_injective hreverse)

/-- Digits without leading zeros are told apart by their numbers. -/
lemma eq_of_number_eq_of_head {ds es : List (Fin 10)} (hds : ds.head? ≠ some 0)
    (hes : es.head? ≠ some 0) (h : number ds = number es) : ds = es := by
  -- a positive number with a nonzero first digit has the length of its digits
  have hlength : ∀ {l : List (Fin 10)}, l.head? ≠ some 0 →
      (Nat.digits 10 (number l)).length = l.length := by
    intro l hl
    cases l with
    | nil => rfl
    | cons d l =>
      have hd : 0 < d.val := by
        rw [Nat.pos_iff_ne_zero]
        intro hzero
        exact hl (congrArg some (Fin.ext hzero))
      have hsplit : number (d :: l) = d.val * 10 ^ l.length + number l := by
        have happend := number_append [d] l
        simpa [number] using happend
      apply le_antisymm
      · rw [Nat.digits_length_le_iff (by decide)]
        exact number_lt (d :: l)
      · apply (Nat.lt_digits_length_iff (by decide) _).mpr
        calc 10 ^ l.length ≤ d.val * 10 ^ l.length := Nat.le_mul_of_pos_left _ hd
          _ ≤ number (d :: l) := by omega
  apply eq_of_number_eq _ h
  rw [← hlength hds, ← hlength hes, h]

end Number

/-! ## Text -/

/-- The text of digits, one character each. -/
def digits (ds : List (Fin 10)) : List Char := ds.map fun d : Fin 10 => Nat.digitChar d.val

/-- The text of the digits before and after the point. -/
def body (whole fraction : List (Fin 10)) : List Char :=
  digits whole ++ if fraction = [] then [] else '.' :: digits fraction

/-- The text of a numeral: a minus sign if there is one, the whole part, and the fraction behind a
point. -/
def text (d : Decimal) : List Char := (if d.negative then ['-'] else []) ++ body d.whole d.fraction

section Text

lemma digitChar_injective : Function.Injective fun d : Fin 10 => Nat.digitChar d.val := by
  intro d e h
  revert d e
  decide

lemma digitChar_notMem : ∀ d : Fin 10, Nat.digitChar d.val ∉ ['.', '-', ',', ' '] := by decide

lemma digits_injective : Function.Injective digits := List.map_injective_iff.mpr digitChar_injective

lemma take_digits (k : ℕ) (ds : List (Fin 10)) : (digits ds).take k = digits (ds.take k) :=
  List.map_take.symm

/-- Every character of a numeral is a digit, a point or a minus sign. -/
lemma notMem_text (d : Decimal) {c : Char} (hc : c ∈ [',', ' ']) : c ∉ d.text := by
  have hdigits : ∀ ds : List (Fin 10), c ∉ digits ds := by
    intro ds hmem
    obtain ⟨e, -, rfl⟩ := List.mem_map.mp hmem
    exact digitChar_notMem e (List.mem_cons_of_mem _ (List.mem_cons_of_mem _ hc))
  have hpoint : c ≠ '.' := by
    rintro rfl
    simp at hc
  have hminus : c ≠ '-' := by
    rintro rfl
    simp at hc
  unfold text body
  split_ifs <;> simp [hdigits, hpoint, hminus]

/-- A text that begins like a numeral with a point in a given place. -/
lemma take_body_eq_iff {p q : List (Fin 10)} (hq : q ≠ []) (whole fraction : List (Fin 10)) :
    (body whole fraction).take (p.length + (q.length + 1)) = digits p ++ '.' :: digits q ↔
      whole = p ∧ fraction.take q.length = q := by
  have hchar : ∀ d : Fin 10, Nat.digitChar d.val ≠ '.' := fun d heq =>
    digitChar_notMem d (heq ▸ List.mem_cons_self)
  induction p generalizing whole with
  | nil =>
    cases whole with
    | nil =>
      by_cases hfraction : fraction = []
      · simp [body, digits, hfraction, hq.symm]
      · simp only [body, digits, if_neg hfraction, List.map_nil, List.nil_append, List.length_nil,
          Nat.zero_add, List.take_succ_cons, List.cons.injEq, true_and, ← List.map_take]
        exact digits_injective.eq_iff
    | cons w whole => simp [body, digits, hchar]
  | cons d p ih =>
    have hlength : (d :: p).length + (q.length + 1) = p.length + (q.length + 1) + 1 := by
      rw [List.length_cons]
      omega
    cases whole with
    | nil =>
      by_cases hfraction : fraction = []
      · simp [body, digits, hfraction]
      · have hbody : body [] fraction = '.' :: digits fraction := by
          rw [body, if_neg hfraction]
          rfl
        rw [hbody, hlength, List.take_succ_cons]
        simp [digits, (hchar d).symm]
    | cons w whole =>
      have hcons : body (w :: whole) fraction = Nat.digitChar w.val :: body whole fraction := rfl
      have hdigits : digits (d :: p) = Nat.digitChar d.val :: digits p := rfl
      rw [hcons, hdigits, hlength, List.take_succ_cons, List.cons_append, List.cons.injEq,
        List.cons.injEq, digitChar_injective.eq_iff, and_assoc]
      exact and_congr_right fun _ => ih whole

/-- A text that begins like a numeral below zero: the sign, the whole part and the first digits of the
fraction are read off. -/
lemma take_text_eq_minus_iff {p q : List (Fin 10)} (hq : q ≠ []) (d : Decimal) :
    d.text.take (p.length + (q.length + 1) + 1) = '-' :: (digits p ++ '.' :: digits q) ↔
      d.negative = true ∧ d.whole = p ∧ d.fraction.take q.length = q := by
  cases hsign : d.negative with
  | true =>
    have htext : d.text = '-' :: body d.whole d.fraction := by
      rw [text, if_pos hsign]
      rfl
    rw [htext, List.take_succ_cons, List.cons.injEq]
    simp only [true_and]
    exact take_body_eq_iff hq d.whole d.fraction
  | false =>
    obtain ⟨w, whole, hwhole⟩ := List.exists_cons_of_ne_nil d.whole_ne
    have htext : d.text = Nat.digitChar w.val :: body whole d.fraction := by
      rw [text, hsign, hwhole]
      rfl
    have hminus : Nat.digitChar w.val ≠ '-' := fun heq =>
      digitChar_notMem w (heq ▸ List.mem_cons_of_mem _ List.mem_cons_self)
    rw [htext, List.take_succ_cons, List.cons.injEq]
    simp [hminus]

/-- A text that begins like a numeral without a sign. -/
lemma take_text_eq_iff {p q : List (Fin 10)} (hp : p ≠ []) (hq : q ≠ []) (d : Decimal) :
    d.text.take (p.length + (q.length + 1)) = digits p ++ '.' :: digits q ↔
      d.negative = false ∧ d.whole = p ∧ d.fraction.take q.length = q := by
  cases hsign : d.negative with
  | true =>
    obtain ⟨e, p, rfl⟩ := List.exists_cons_of_ne_nil hp
    have htext : d.text = '-' :: body d.whole d.fraction := by
      rw [text, if_pos hsign]
      rfl
    have hlength : (e :: p).length + (q.length + 1) = p.length + (q.length + 1) + 1 := by
      rw [List.length_cons]
      omega
    have hminus : '-' ≠ Nat.digitChar e.val := fun heq =>
      digitChar_notMem e (heq ▸ List.mem_cons_of_mem _ List.mem_cons_self)
    rw [htext, hlength, List.take_succ_cons]
    simp [digits, hminus]
  | false =>
    have htext : d.text = body d.whole d.fraction := by
      rw [text, hsign]
      rfl
    rw [htext]
    simp only [true_and]
    exact take_body_eq_iff hq d.whole d.fraction

end Text

/-! ## Value

Values are rational numbers, so comparisons between them are exact.  `scaled` brings a comparison back
to naturals by cutting the numeral behind `k` digits, where a bound of `k` digits cannot see the rest. -/

variable (d : Decimal)

/-- The absolute value: the whole part, and the digits of the fraction over a power of ten. -/
def magnitude : ℚ := number d.whole + number d.fraction / 10 ^ d.fraction.length

/-- The value, as a rational number; minus zero has the value of zero. -/
def value : ℚ := if d.negative then -d.magnitude else d.magnitude

/-- The first `k` digits after the point, with zeros where there are fewer. -/
def leading (k : ℕ) : List (Fin 10) := (d.fraction ++ List.replicate k 0).take k

/-- The digits before the point and `k` digits after it, as one number. -/
def scaled (k : ℕ) : ℕ := number d.whole * 10 ^ k + number (d.leading k)

@[simp] lemma length_leading (k : ℕ) : (d.leading k).length = k := by
  simp [leading]

lemma magnitude_nonneg : 0 ≤ d.magnitude := by
  unfold magnitude
  positivity

/-- A magnitude is less than one unit of its last digit above `scaled`. -/
lemma exists_magnitude_eq (k : ℕ) :
    ∃ r : ℚ, 0 ≤ r ∧ r < 1 ∧ d.magnitude * 10 ^ k = d.scaled k + r := by
  obtain ⟨rest, hrest⟩ : ∃ rest, rest = (d.fraction ++ List.replicate k 0).drop k := ⟨_, rfl⟩
  have hlength : rest.length = d.fraction.length := by simp [hrest]
  have hsplit : number d.fraction * 10 ^ k =
      number (d.leading k) * 10 ^ d.fraction.length + number rest := by
    have hpadded := number_append d.fraction (List.replicate k 0)
    rw [List.length_replicate, number_replicate_zero, add_zero] at hpadded
    rw [← hpadded, ← List.take_append_drop k (d.fraction ++ List.replicate k 0), number_append,
      ← hrest, hlength]
    rfl
  have hpos : (0 : ℚ) < 10 ^ d.fraction.length := by positivity
  refine ⟨number rest / 10 ^ d.fraction.length, by positivity, ?_, ?_⟩
  · rw [div_lt_one hpos]
    have hlt := number_lt rest
    rw [hlength] at hlt
    exact_mod_cast hlt
  · have hcast : (number d.fraction : ℚ) * 10 ^ k =
        number (d.leading k) * 10 ^ d.fraction.length + number rest := by exact_mod_cast hsplit
    unfold magnitude scaled
    push_cast
    field_simp
    linear_combination hcast

lemma le_magnitude_iff (k n : ℕ) : (n : ℚ) ≤ d.magnitude * 10 ^ k ↔ n ≤ d.scaled k := by
  obtain ⟨r, hr0, hr1, hr⟩ := d.exists_magnitude_eq k
  rw [hr]
  constructor
  · intro h
    have hlt : (n : ℚ) < (d.scaled k + 1 : ℕ) := by
      push_cast
      linarith
    exact Nat.lt_succ_iff.mp (by exact_mod_cast hlt)
  · intro h
    have hle : (n : ℚ) ≤ d.scaled k := by exact_mod_cast h
    linarith

lemma magnitude_lt_iff (k n : ℕ) : d.magnitude * 10 ^ k < n ↔ d.scaled k < n := by
  rw [← not_le, ← not_le, le_magnitude_iff]

end Decimal

end Whuctf
