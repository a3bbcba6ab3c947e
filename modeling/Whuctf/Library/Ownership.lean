import Mathlib.Logic.Function.Basic

/-!
# Values behind pointers

Objects hold pointers to values on a heap.  When every live object points to a value of its own and the
heap holds no others, the heap is as good as a map from the objects to their values: a change of a value,
a new object and the end of an object are each a change of that map at one object.

The heap may be cleaned up by hand, as in C++: what is not the value of an object is then nowhere on
it, so nothing leaks.  A new value goes to a free place, which is all that is asked of an allocator.
-/

namespace Whuctf

universe u v w

section Owns

variable {ι : Type u} {α : Type v} {β : Type w}

/-- Each object with a value points to it, no two of them to the same place, and what is on the heap is
the value of an object. -/
structure Owns (pointer : ι → α) (heap : α → Option β) (value : ι → Option β) : Prop where
  live : ∀ i b, value i = some b → heap (pointer i) = some b
  separate : ∀ i j b c, value i = some b → value j = some c → pointer i = pointer j → i = j
  owned : ∀ a b, heap a = some b → ∃ i, value i = some b ∧ pointer i = a

variable {pointer : ι → α} {heap : α → Option β} {value : ι → Option β}

/-- Without objects there is nothing on the heap: no address is in use, so nothing has leaked. -/
lemma Owns.heap_eq_none (h : Owns pointer heap value) (hnone : ∀ i, value i = none) (a : α) :
    heap a = none := by
  cases hheap : heap a with
  | none => rfl
  | some b =>
      obtain ⟨i, hi, -⟩ := h.owned a b hheap
      rw [hnone i] at hi
      cases hi

variable [DecidableEq ι] [DecidableEq α]

/-- The value of an object changes, and with it what is behind its pointer. -/
lemma Owns.update (h : Owns pointer heap value) {i : ι} {b : β} (hi : value i = some b) (b' : β) :
    Owns pointer (Function.update heap (pointer i) (some b')) (Function.update value i (some b')) := by
  have hlive : ∀ {j : ι} {c : β}, Function.update value i (some b') j = some c →
      ∃ d, value j = some d := by
    intro j c hj
    by_cases hji : j = i
    · exact ⟨b, hji ▸ hi⟩
    · rw [Function.update_of_ne hji] at hj
      exact ⟨c, hj⟩
  refine ⟨?_, ?_, ?_⟩
  · intro j c hj
    by_cases hji : j = i
    · subst hji
      rw [Function.update_self] at hj ⊢
      exact hj
    · rw [Function.update_of_ne hji] at hj
      have hne : pointer j ≠ pointer i := fun hsame => hji (h.separate j i c b hj hi hsame)
      rw [Function.update_of_ne hne]
      exact h.live j c hj
  · intro j k c d hj hk hsame
    obtain ⟨c', hj'⟩ := hlive hj
    obtain ⟨d', hk'⟩ := hlive hk
    exact h.separate j k c' d' hj' hk' hsame
  · intro a c ha
    by_cases hai : a = pointer i
    · subst hai
      rw [Function.update_self] at ha
      exact ⟨i, by rw [Function.update_self, ha], rfl⟩
    · rw [Function.update_of_ne hai] at ha
      obtain ⟨j, hj, rfl⟩ := h.owned a c ha
      have hne : j ≠ i := fun hji => hai (hji ▸ rfl)
      exact ⟨j, by rw [Function.update_of_ne hne, hj], rfl⟩

/-- A new object gets a value at a free place. -/
lemma Owns.insert (h : Owns pointer heap value) {i : ι} {a : α} (hi : value i = none)
    (ha : heap a = none) (b : β) :
    Owns (Function.update pointer i a) (Function.update heap a (some b))
      (Function.update value i (some b)) := by
  have hother : ∀ {j : ι} {c : β}, value j = some c → j ≠ i ∧ pointer j ≠ a := by
    intro j c hj
    constructor
    · rintro rfl
      rw [hi] at hj
      cases hj
    · rintro rfl
      rw [h.live j c hj] at ha
      cases ha
  have hcases : ∀ {j : ι} {c : β}, Function.update value i (some b) j = some c →
      j = i ∨ j ≠ i ∧ pointer j ≠ a ∧ value j = some c := by
    intro j c hj
    by_cases hji : j = i
    · exact .inl hji
    · rw [Function.update_of_ne hji] at hj
      exact .inr ⟨hji, (hother hj).2, hj⟩
  refine ⟨?_, ?_, ?_⟩
  · intro j c hj
    rcases hcases hj with rfl | ⟨hji, hja, hvalue⟩
    · rw [Function.update_self] at hj ⊢
      rw [Function.update_self, hj]
    · rw [Function.update_of_ne hji, Function.update_of_ne hja]
      exact h.live j c hvalue
  · intro j k c d hj hk hsame
    rcases hcases hj with rfl | ⟨hji, hja, hvalue⟩ <;> rcases hcases hk with rfl | ⟨hki, hka, hvalue'⟩
    · rfl
    · rw [Function.update_self, Function.update_of_ne hki] at hsame
      exact absurd hsame.symm hka
    · rw [Function.update_self, Function.update_of_ne hji] at hsame
      exact absurd hsame hja
    · rw [Function.update_of_ne hji, Function.update_of_ne hki] at hsame
      exact h.separate j k c d hvalue hvalue' hsame
  · intro a' c ha'
    by_cases haa : a' = a
    · subst haa
      rw [Function.update_self] at ha'
      exact ⟨i, by rw [Function.update_self, ha'], Function.update_self _ _ _⟩
    · rw [Function.update_of_ne haa] at ha'
      obtain ⟨j, hj, rfl⟩ := h.owned a' c ha'
      have hji := (hother hj).1
      exact ⟨j, by rw [Function.update_of_ne hji, hj], Function.update_of_ne hji _ _⟩

/-- An object ends, and its value is taken from the heap. -/
lemma Owns.erase (h : Owns pointer heap value) {i : ι} {b : β} (hi : value i = some b) :
    Owns pointer (Function.update heap (pointer i) none) (Function.update value i none) := by
  have hother : ∀ {j : ι} {c : β}, Function.update value i none j = some c →
      j ≠ i ∧ value j = some c := by
    intro j c hj
    have hji : j ≠ i := by
      rintro rfl
      rw [Function.update_self] at hj
      cases hj
    rw [Function.update_of_ne hji] at hj
    exact ⟨hji, hj⟩
  refine ⟨?_, ?_, ?_⟩
  · intro j c hj
    obtain ⟨hji, hvalue⟩ := hother hj
    have hne : pointer j ≠ pointer i := fun hsame => hji (h.separate j i c b hvalue hi hsame)
    rw [Function.update_of_ne hne]
    exact h.live j c hvalue
  · intro j k c d hj hk hsame
    exact h.separate j k c d (hother hj).2 (hother hk).2 hsame
  · intro a c ha
    have hai : a ≠ pointer i := by
      rintro rfl
      rw [Function.update_self] at ha
      cases ha
    rw [Function.update_of_ne hai] at ha
    obtain ⟨j, hj, rfl⟩ := h.owned a c ha
    have hji : j ≠ i := fun heq => hai (heq ▸ rfl)
    exact ⟨j, by rw [Function.update_of_ne hji, hj], rfl⟩

end Owns

end Whuctf
