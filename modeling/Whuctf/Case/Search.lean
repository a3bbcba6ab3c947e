import Mathlib.Computability.Language
import Whuctf.Library.Base64
import Whuctf.Library.Utf8

/-!
# The case search of the case challenge

`std.py` recovers a flag from its upper-cased base64 text.  For each group of four characters it
decodes the combinations of upper and lower case, keeps the results over the alphabet of flags, and
extends each of the texts found so far by the first and by the second of them: the code handles one
result or two, and stops extending correctly if there are more.

Where every group has one or two results, the texts that the loop ends with are the product of the
results of the groups.  The order of a Python set is a parameter.
-/

namespace Whuctf.Case

open Python Base64

/-! ## The program -/

/-- `S`, the characters that a flag may have. -/
def S : List Char :=
  "abcdefghijklmnopqrstuvwxyzABCDEFGHIJKLMNOPQRSTUVWXYZ0123456789_\x7b\x7d".toList

/-- What `__next__` of `StringCaseIterator` builds at the number `i`, whose bits choose the case of
each character. -/
def combo (s : List Char) (i : ℕ) : List Char :=
  s.mapIdx fun j c => if (i >>> j) % 2 = 0 then c.toUpper else c.toLower

/-- The texts over which `StringCaseIterator` iterates, one for each number below a power of two. -/
def stringCaseIterator (s : List Char) : List (List Char) :=
  (List.range (2 ^ s.length)).map (combo s)

/-- The body of the `try`, and `none` where it raises or the text is not over `S`. -/
def tryCombo (combo : List Char) : Option (List Char) :=
  match b64decode combo >>= Utf8.decode with
  | .ok d => if d.all (· ∈ S) then some d else none
  | .error _ => none

/-- The list `decoded` after the loop over the combinations of a group. -/
def decodings (s : List Char) : List (List Char) := (stringCaseIterator s).filterMap tryCombo

/-- The order in which a run lists the elements of its sets. -/
structure SetOrder where
  /-- `list(set(l))` -/
  listSet : List (List Char) → List (List Char)
  /-- `list(set(l) | set(l'))` -/
  listUnion : List (List Char) → List (List Char) → List (List Char)
  nodup_listSet : ∀ l, (listSet l).Nodup
  mem_listSet : ∀ l x, x ∈ listSet l ↔ x ∈ l
  nodup_listUnion : ∀ l l', (listUnion l l').Nodup
  mem_listUnion : ∀ l l' x, x ∈ listUnion l l' ↔ x ∈ l ∨ x ∈ l'

/-- What a pass of the search loop does with the list `decoded`. -/
def extendFlags (order : SetOrder) (flags decoded : List (List Char)) : List (List Char) :=
  let tmp :=
    if h : decoded.length = 2 then
      if flags.length = 0 then [decoded[1]] else flags.map (· ++ decoded[1])
    else []
  let flags :=
    if h : 0 < decoded.length then
      if flags.length = 0 then flags ++ [decoded[0]] else flags.map (· ++ decoded[0])
    else flags
  order.listUnion flags tmp

/-- One pass of the search loop on the group `s`. -/
def searchStep (order : SetOrder) (flags : List (List Char)) (s : List Char) : List (List Char) :=
  extendFlags order flags (order.listSet (decodings s))

/-- The groups that the search loop takes from `c`: four characters each, as long as there are any. -/
def groups (c : List Char) : List (List Char) :=
  (rangeStep c.length 4).map fun i => slice c i (i + 4)

/-- `flags` after the search loop over the groups of four characters. -/
def searchLoop (order : SetOrder) (c : List Char) : List (List Char) :=
  (groups c).foldl (searchStep order) []

/-! ## The combinations of a group -/

lemma combo_cons (c : Char) (s : List Char) (i : ℕ) :
    combo (c :: s) i = (if i % 2 = 0 then c.toUpper else c.toLower) :: combo s (i / 2) := by
  have hshift : ∀ j, i >>> (j + 1) = (i / 2) >>> j := by
    intro j
    rw [Nat.shiftRight_eq_div_pow, Nat.shiftRight_eq_div_pow, Nat.div_div_eq_div_mul, pow_succ']
  simp only [combo, List.mapIdx_cons, Nat.shiftRight_zero, hshift]

/-- The iterator runs through every choice of cases: the texts it builds are those that have, at each
place, the upper or the lower case of the character there. -/
lemma mem_stringCaseIterator {s t : List Char} :
    t ∈ stringCaseIterator s ↔ List.Forall₂ (fun c d => d = c.toUpper ∨ d = c.toLower) s t := by
  simp only [stringCaseIterator, List.mem_map, List.mem_range]
  induction s generalizing t with
  | nil =>
    rw [List.forall₂_nil_left_iff]
    constructor
    · rintro ⟨i, _, rfl⟩
      rfl
    · rintro rfl
      exact ⟨0, by simp, rfl⟩
  | cons c s ih =>
    rw [List.forall₂_cons_left_iff, List.length_cons, pow_succ]
    constructor
    · rintro ⟨i, hi, rfl⟩
      refine ⟨_, _, ?_, ih.mp ⟨i / 2, by omega, rfl⟩, combo_cons c s i⟩
      by_cases hbit : i % 2 = 0
      · exact Or.inl (if_pos hbit)
      · exact Or.inr (if_neg hbit)
    · rintro ⟨d, t, hd, ht, rfl⟩
      obtain ⟨i, hi, rfl⟩ := ih.mpr ht
      rcases hd with rfl | rfl
      · refine ⟨2 * i, by omega, ?_⟩
        rw [combo_cons, if_pos (by omega), Nat.mul_div_cancel_left i (by omega)]
      · refine ⟨2 * i + 1, by omega, ?_⟩
        rw [combo_cons, if_neg (by omega)]
        congr 2
        omega

/-! ## One pass of the loop

Languages multiply by concatenation, which is what a pass does to the texts found so far.  Before the
first result there is nothing to extend, and the empty text stands for that. -/

/-- The texts of a list, as a language: how often and in which order they are listed does not matter. -/
def texts (l : List (List Char)) : Language Char := {x | x ∈ l}

/-- The texts that a pass extends: before the first result, the empty text. -/
def prefixes (flags : List (List Char)) : Language Char := if flags = [] then 1 else texts flags

/-- The groups on which the code extends the texts by every result. -/
def Handled (order : SetOrder) (s : List Char) : Prop :=
  0 < (order.listSet (decodings s)).length ∧ (order.listSet (decodings s)).length ≤ 2

section Pass

variable (order : SetOrder)

lemma mem_texts {l : List (List Char)} {x : List Char} : x ∈ texts l ↔ x ∈ l := Iff.rfl

lemma mem_prefixes {flags : List (List Char)} (h : flags ≠ []) {x : List Char} :
    x ∈ prefixes flags ↔ x ∈ flags := by
  rw [prefixes, if_neg h, mem_texts]

/-- Both branches of a pass extend the texts by one result: the first pass has no texts yet, which
stands for the empty one. -/
lemma mem_extend {flags : List (List Char)} {d x : List Char} :
    (x ∈ if flags.length = 0 then [d] else flags.map (· ++ d)) ↔
      ∃ k ∈ prefixes flags, k ++ d = x := by
  by_cases h : flags = []
  · subst h
    simp [prefixes, Language.mem_one, eq_comm]
  · have hlength : flags.length ≠ 0 := by simpa using h
    simp only [if_neg hlength, mem_prefixes h, List.mem_map]

lemma mem_extendFlags {flags decoded : List (List Char)} {x : List Char}
    (hpos : 0 < decoded.length) (htwo : decoded.length ≤ 2) :
    x ∈ extendFlags order flags decoded ↔ ∃ k ∈ prefixes flags, ∃ d ∈ decoded, k ++ d = x := by
  have happend : ∀ d, (if flags.length = 0 then flags ++ [d] else flags.map (· ++ d)) =
      if flags.length = 0 then [d] else flags.map (· ++ d) := by
    intro d
    by_cases h : flags.length = 0
    · rw [if_pos h, if_pos h, List.length_eq_zero_iff.mp h, List.nil_append]
    · rw [if_neg h, if_neg h]
  match decoded, hpos, htwo with
  | [d], _, _ =>
    simp only [extendFlags, order.mem_listUnion, List.length_singleton, OfNat.one_ne_ofNat,
      zero_lt_one, dif_pos, dif_neg, not_false_eq_true, List.getElem_cons_zero, List.not_mem_nil,
      or_false, happend, mem_extend, List.mem_singleton, exists_eq_left]
  | [d, d'], _, _ =>
    simp only [extendFlags, order.mem_listUnion, List.length_cons, List.length_nil, zero_add,
      Nat.reduceAdd, zero_lt_two, dif_pos, List.getElem_cons_zero, List.getElem_cons_succ, happend,
      mem_extend, List.mem_cons, List.not_mem_nil, or_false, exists_eq_or_imp, exists_eq_left,
      ← exists_or, ← and_or_left]

/-- A pass multiplies the texts by the results of its group, as far as the loop handles their number. -/
lemma prefixes_searchStep {s : List Char} (hs : Handled order s) (flags : List (List Char)) :
    prefixes (searchStep order flags s) = prefixes flags * texts (decodings s) := by
  have hresults : ∀ d, d ∈ texts (decodings s) ↔ d ∈ order.listSet (decodings s) := fun d =>
    (order.mem_listSet _ d).symm
  have hmem : ∀ x, x ∈ searchStep order flags s ↔ x ∈ prefixes flags * texts (decodings s) := by
    intro x
    simp only [Language.mem_mul, hresults]
    exact mem_extendFlags order hs.1 hs.2
  have hsome : searchStep order flags s ≠ [] := by
    obtain ⟨k, hk⟩ : ∃ k, k ∈ prefixes flags := by
      by_cases h : flags = []
      · exact ⟨[], by rw [prefixes, if_pos h]; exact Language.nil_mem_one⟩
      · obtain ⟨k, hk⟩ := List.exists_mem_of_ne_nil flags h
        exact ⟨k, (mem_prefixes h).mpr hk⟩
    have hd := (hresults _).mpr (List.getElem_mem hs.1)
    exact List.ne_nil_of_mem ((hmem _).mpr (Language.append_mem_mul hk hd))
  ext x
  rw [mem_prefixes hsome, hmem]

/-- The texts after the loop are the product of the results of the groups. -/
theorem prefixes_foldl_searchStep {gs : List (List Char)} (h : ∀ s ∈ gs, Handled order s)
    (flags : List (List Char)) :
    prefixes (gs.foldl (searchStep order) flags) =
      prefixes flags * (gs.map (texts ∘ decodings)).prod := by
  induction gs generalizing flags with
  | nil => simp
  | cons s gs ih =>
    rw [List.foldl_cons, ih fun t ht => h t (List.mem_cons_of_mem s ht),
      prefixes_searchStep order (h s List.mem_cons_self), List.map_cons, List.prod_cons, mul_assoc,
      Function.comp_apply]

end Pass

end Whuctf.Case
