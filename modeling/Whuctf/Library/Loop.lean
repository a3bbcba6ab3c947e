import Mathlib.Data.Fin.Basic

/-!
# Loop invariants for counted loops

A C or Python `for` over a fixed range is a `Fin.foldl`.  An invariant of such a loop is a
family indexed by the number of turns taken; `foldl_invariant` carries it from the first turn
to the last, and `foldl_relation` does the same for two loops side by side.

Loops that do not count, and loops that draw numbers or can raise, are elsewhere (`Transition`,
`Draws`).  The rules here ask for no termination argument, since the number of turns is in the type.
-/

namespace Whuctf.Loop

/-- **Loop rule.**  An invariant that holds before the first turn, and that turn `i` carries from `i`
to `i + 1`, holds after the last turn, with the number of turns for its index. -/
theorem foldl_invariant {α : Type*} {n : ℕ} (I : ℕ → α → Prop) (f : α → Fin n → α) (a : α)
    (hinit : I 0 a) (hstep : ∀ (i : Fin n) (x : α), I i.val x → I (i.val + 1) (f x i)) :
    I n (Fin.foldl n f a) := by
  induction n with
  | zero => simpa using hinit
  | succ n ih =>
      rw [Fin.foldl_succ_last]
      have hprefix : I n (Fin.foldl n (fun x i => f x i.castSucc) a) :=
        ih _ fun i x hx => hstep i.castSucc x hx
      exact hstep (Fin.last n) _ hprefix

/-- **Two loops in step.**  A relation that holds before the first turn, and that every turn of the
two loops keeps, holds after the last. -/
theorem foldl_relation {α β : Type*} {n : ℕ} (R : α → β → Prop) (f : α → Fin n → α)
    (g : β → Fin n → β) {a : α} {b : β} (hinit : R a b)
    (hstep : ∀ i x y, R x y → R (f x i) (g y i)) : R (Fin.foldl n f a) (Fin.foldl n g b) := by
  induction n with
  | zero => simpa using hinit
  | succ n ih =>
      rw [Fin.foldl_succ_last, Fin.foldl_succ_last]
      exact hstep (Fin.last n) _ _ (ih _ _ fun i => hstep i.castSucc)

end Whuctf.Loop
