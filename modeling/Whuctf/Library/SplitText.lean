import Mathlib.Data.List.Infix

/-!
# Splitting at a separator of several characters

`splitText sep text` cuts a text at the occurrences of a separator, from left to right and without overlap,
as `split` does in many languages.  It gives the whole text back when the separator does not occur in it,
and otherwise starts with what is before an occurrence.

The recursion is on the text, with a count of the characters that a separator has still to swallow, so
it is structural.  The lemmas are about single occurrences: where the first one is, what is in front of
it, and when one exists.
-/

namespace Whuctf

section SplitText

variable {α : Type} [DecidableEq α]

/-- The pieces of a text of which the first `skip` elements belong to a separator. -/
def splitFrom (sep : List α) : ℕ → List α → List (List α)
  | _, [] => [[]]
  | skip + 1, _ :: rest => splitFrom sep skip rest
  | 0, c :: rest =>
      if sep <+: c :: rest then [] :: splitFrom sep (sep.length - 1) rest
      else (splitFrom sep 0 rest).modifyHead (c :: ·)

/-- The pieces of a text between the occurrences of a separator, which is not empty. -/
def splitText (sep text : List α) : List (List α) := splitFrom sep 0 text

variable {sep : List α}

lemma splitFrom_eq (skip : ℕ) (text : List α) : splitFrom sep skip text = splitText sep (text.drop skip) := by
  induction skip generalizing text with
  | zero => rfl
  | succ skip ih =>
    cases text with
    | nil => rfl
    | cons c rest => exact ih rest

lemma splitText_cons_of_no_match {c : α} {rest : List α} (h : ¬sep <+: c :: rest) :
    splitText sep (c :: rest) = (splitText sep rest).modifyHead (c :: ·) := by
  rw [splitText, splitFrom, if_neg h]
  rfl

/-- A separator at the start: the first piece is empty, and the others are those of the rest. -/
lemma splitText_append_self (hsep : sep ≠ []) (rest : List α) :
    splitText sep (sep ++ rest) = [] :: splitText sep rest := by
  obtain ⟨c, others, rfl⟩ := List.exists_cons_of_ne_nil hsep
  have hprefix : c :: others <+: c :: (others ++ rest) := List.prefix_append (c :: others) rest
  rw [List.cons_append, splitText, splitFrom, if_pos hprefix, splitFrom_eq, List.length_cons,
    Nat.add_sub_cancel, List.drop_left]

/-- A separator that starts with an element the text before it does not have. -/
lemma splitText_append {c : α} {others before : List α} (hbefore : c ∉ before) (rest : List α) :
    splitText (c :: others) (before ++ (c :: others ++ rest)) =
      before :: splitText (c :: others) rest := by
  induction before with
  | nil => exact splitText_append_self (List.cons_ne_nil _ _) rest
  | cons b before ih =>
    rw [List.mem_cons, not_or] at hbefore
    have hnot : ¬c :: others <+: b :: (before ++ (c :: others ++ rest)) :=
      fun h => hbefore.1 (List.cons_prefix_cons.mp h).1
    rw [List.cons_append, splitText_cons_of_no_match hnot, ih hbefore.2]
    rfl

lemma splitText_of_not_infix {text : List α} (h : ¬sep <:+: text) : splitText sep text = [text] := by
  induction text with
  | nil => rfl
  | cons c rest ih =>
    rw [List.infix_cons_iff, not_or] at h
    rw [splitText_cons_of_no_match h.1, ih h.2]
    rfl

/-- The first piece is what is before some occurrence of the separator, if there is one. -/
lemma exists_splitText_of_infix (hsep : sep ≠ []) {text : List α} (h : sep <:+: text) :
    ∃ before rest, text = before ++ (sep ++ rest) ∧
      splitText sep text = before :: splitText sep rest := by
  induction text with
  | nil => exact absurd (List.infix_nil.mp h) hsep
  | cons c others ih =>
    by_cases hprefix : sep <+: c :: others
    · obtain ⟨rest, hrest⟩ := hprefix
      refine ⟨[], rest, hrest.symm, ?_⟩
      rw [← hrest, splitText_append_self hsep]
    · obtain ⟨before, rest, rfl, hsplit⟩ := ih ((List.infix_cons_iff.mp h).resolve_left hprefix)
      refine ⟨c :: before, rest, rfl, ?_⟩
      rw [splitText_cons_of_no_match hprefix, hsplit]
      rfl

end SplitText

section Infix

variable {α : Type} {sep : List α}

/-- An element that the separator does not have can be left out in front. -/
lemma infix_of_infix_cons {c : α} {rest : List α} (hc : c ∉ sep) (hsep : sep ≠ [])
    (h : sep <:+: c :: rest) : sep <:+: rest := by
  refine (List.infix_cons_iff.mp h).resolve_left fun hprefix => ?_
  obtain ⟨b, others, rfl⟩ := List.exists_cons_of_ne_nil hsep
  exact hc (List.mem_cons.mpr (.inl (List.cons_prefix_cons.mp hprefix).1.symm))

/-- An element that the separator does not have can be left out at the end as well. -/
lemma infix_of_infix_concat {c : α} {rest : List α} (hc : c ∉ sep) (hsep : sep ≠ [])
    (h : sep <:+: rest ++ [c]) : sep <:+: rest := by
  rw [← List.reverse_infix] at h ⊢
  rw [List.reverse_append] at h
  exact infix_of_infix_cons (by simpa using hc) (by simpa using hsep) h

end Infix

end Whuctf
