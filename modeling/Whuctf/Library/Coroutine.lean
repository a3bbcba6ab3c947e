import Mathlib.Data.Nat.Notation
import Mathlib.Tactic.TypeStar

/-!
# Coroutines that yield

The body of a coroutine says, for each point it can be suspended at, what it does when it is resumed
there: it yields a value and is suspended again, or it returns.  It has no answer where resuming it
is undefined.

`Yields body p vs` is a whole run from `p` to the return, with the values yielded on the way.  One
step of the body gives the first value of the run (`yields_iff_of_yields`), so that a run is
computed by rewriting, and there is at most one (`Yields.unique`).

That a run exists says that the coroutine terminates, and that it is never resumed where its body has
no answer.  Suspension points may carry the values of the local variables, since these live on in the
frame of the coroutine.
-/

namespace Whuctf

/-- What a coroutine does once it is resumed: it yields a value and names the point at which it waits,
or it returns. -/
inductive Progress (σ T : Type*)
  | yields (value : T) (point : σ)
  | returns

/-- The body of a coroutine with suspension points `σ`: what it does when it is resumed at one of them,
where that is defined. -/
abbrev Body (σ T : Type*) := σ → Option (Progress σ T)

/-- A run from a suspension point to the return, with the values it yields. -/
inductive Yields {σ T : Type*} (body : Body σ T) : σ → List T → Prop
  | returns {p : σ} (h : body p = some .returns) : Yields body p []
  | yields {p q : σ} {v : T} {vs : List T} (h : body p = some (.yields v q))
      (hrest : Yields body q vs) : Yields body p (v :: vs)

section Yields

variable {σ T : Type*} {body : Body σ T} {p q : σ} {v : T} {vs ws : List T}

lemma yields_iff_of_returns (h : body p = some .returns) : Yields body p vs ↔ vs = [] := by
  constructor
  · intro hrun
    cases hrun with
    | returns => rfl
    | yields hstep => simp [h] at hstep
  · rintro rfl
    exact .returns h

lemma yields_iff_of_yields (h : body p = some (.yields v q)) :
    Yields body p vs ↔ ∃ rest, vs = v :: rest ∧ Yields body q rest := by
  constructor
  · intro hrun
    cases hrun with
    | returns hstep => simp [h] at hstep
    | yields hstep hrest =>
        rw [h] at hstep
        cases hstep
        exact ⟨_, rfl, hrest⟩
  · rintro ⟨rest, rfl, hrest⟩
    exact .yields h hrest

lemma not_yields_of_undefined (h : body p = none) : ¬Yields body p vs := by
  intro hrun
  cases hrun with
  | returns hstep => simp [h] at hstep
  | yields hstep => simp [h] at hstep

/-- A coroutine has one run from a point, since its body is a function of the point. -/
lemma Yields.unique (h : Yields body p vs) (h' : Yields body p ws) : vs = ws := by
  induction h generalizing ws with
  | returns hstep => exact ((yields_iff_of_returns hstep).mp h').symm
  | yields hstep _ ih =>
      obtain ⟨rest, rfl, hrest⟩ := (yields_iff_of_yields hstep).mp h'
      rw [ih hrest]

end Yields

end Whuctf
