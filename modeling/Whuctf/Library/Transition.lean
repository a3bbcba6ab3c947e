import Mathlib.Data.Nat.Notation
import Mathlib.Tactic.ByContra
import Mathlib.Tactic.TypeStar

/-!
# Runs of a transition system

`Steps R n s t` is a run of `n` steps of `R` from `s` to `t`.  A property indexed by a rank that
every step lowers bounds the length of every run and holds at its end (`Steps.ranked`); with a
step enabled at every rank but the last, every run can be continued to the end, and some run gets
there (`Steps.exists_end`).

When any two steps from a state can be completed by one step each to a common state (`Diamond`),
the order of the steps does not matter: one run to a state without steps bounds the length of every
run from the same start, and every run can be continued to that state (`Steps.descent`).

Nothing is said of a system here, so runs of machines, of protocols and of handlers of requests are all
instances.  Liveness is stated without fairness: that runs are bounded, and that each can be continued
until it is done.
-/

namespace Whuctf

/-- A run of `n` steps, with its last step at the end.  The number is kept because bounds are stated in
it. -/
inductive Steps {S : Type*} (R : S → S → Prop) : ℕ → S → S → Prop
  | refl (s : S) : Steps R 0 s s
  | tail {n : ℕ} {s t u : S} (h : Steps R n s t) (hstep : R t u) : Steps R (n + 1) s u

namespace Steps

variable {S : Type*} {R : S → S → Prop}

/-- **Ranked invariants.**  When each step keeps `I` and lowers its rank, a run of `n` steps
keeps `I` and lowers the rank by at least `n`. -/
lemma ranked {I : S → ℕ → Prop}
    (hstep : ∀ s t k, I s k → R s t → ∃ k' < k, I t k') {n k : ℕ} {s t : S}
    (hrun : Steps R n s t) (hstart : I s k) : ∃ k', k' + n ≤ k ∧ I t k' := by
  induction hrun with
  | refl s => exact ⟨k, Nat.le_refl k, hstart⟩
  | tail _ hlast ih =>
      obtain ⟨k₁, hle, hmid⟩ := ih hstart
      obtain ⟨k₂, hlt, hend⟩ := hstep _ _ _ hmid hlast
      exact ⟨k₂, by omega, hend⟩

/-- A run with a step in front, which the definition has at the other end. -/
lemma head {n : ℕ} {s t u : S} (hstep : R s t) (h : Steps R n t u) : Steps R (n + 1) s u := by
  induction h with
  | refl t => exact .tail (.refl s) hstep
  | tail _ hlast ih => exact .tail (ih hstep) hlast

lemma trans {n m : ℕ} {s t u : S} (h : Steps R n s t) (h' : Steps R m t u) :
    Steps R (n + m) s u := by
  induction h' with
  | refl t => exact h
  | tail _ hlast ih => exact .tail (ih h) hlast

lemma uncons {n : ℕ} {s u : S} (h : Steps R (n + 1) s u) : ∃ t, R s t ∧ Steps R n t u := by
  induction n generalizing u with
  | zero =>
      cases h with
      | tail h hlast =>
          cases h
          exact ⟨u, hlast, .refl u⟩
  | succ n ih =>
      cases h with
      | tail h hlast =>
          obtain ⟨t, hfirst, hrest⟩ := ih h
          exact ⟨t, hfirst, .tail hrest hlast⟩

/-- **Runs that end.**  When runs are bounded and can go on until `P` holds, some run ends in `P`. -/
lemma exists_end {P : S → Prop} {N : ℕ} {s : S}
    (h : ∀ n t, Steps R n s t → n ≤ N ∧ (P t ∨ ∃ u, R t u)) : ∃ n t, Steps R n s t ∧ P t := by
  by_contra hnone
  have hlong : ∀ n, ∃ t, Steps R n s t := by
    intro n
    induction n with
    | zero => exact ⟨s, .refl s⟩
    | succ n ih =>
        obtain ⟨t, hrun⟩ := ih
        rcases (h n t hrun).2 with hP | ⟨u, hstep⟩
        · exact absurd ⟨n, t, hrun, hP⟩ hnone
        · exact ⟨u, hrun.tail hstep⟩
  obtain ⟨t, hrun⟩ := hlong (N + 1)
  exact absurd (h _ t hrun).1 (Nat.not_succ_le_self N)

/-- A run in one system is a run in another that has its steps. -/
lemma map {T : Type*} {R' : T → T → Prop} (f : S → T) (hf : ∀ s t, R s t → R' (f s) (f t))
    {n : ℕ} {s t : S} (h : Steps R n s t) : Steps R' n (f s) (f t) := by
  induction h with
  | refl s => exact .refl (f s)
  | tail _ hlast ih => exact .tail ih (hf _ _ hlast)

end Steps

/-! ## The order of independent steps

Two processes that share nothing but channels take steps that commute.  The diamond is the least that
is needed of this, and it is a property of single steps. -/

/-- Any two steps from a state are the same or can be completed by one step each. -/
def Diamond {S : Type*} (R : S → S → Prop) : Prop :=
  ∀ ⦃s t u⦄, R s t → R s u → t = u ∨ ∃ v, R t v ∧ R u v

namespace Steps

variable {S : Type*} {R : S → S → Prop}

/-- A first step is the first step of some run to the same end. -/
lemma strip (hR : Diamond R) {n : ℕ} {s t u : S} (hrun : Steps R n s u) (hend : ∀ v, ¬R u v)
    (hstep : R s t) : ∃ m, n = m + 1 ∧ Steps R m t u := by
  induction n generalizing s t with
  | zero =>
      cases hrun
      exact absurd hstep (hend t)
  | succ n ih =>
      obtain ⟨s₁, hfirst, hrest⟩ := hrun.uncons
      rcases hR hstep hfirst with rfl | ⟨v, htv, hsv⟩
      · exact ⟨n, rfl, hrest⟩
      · obtain ⟨m, rfl, hv⟩ := ih hrest hsv
        exact ⟨m + 1, rfl, hv.head htv⟩

/-- **One end.**  With a run to a state without steps, every run is at most as long and can be
continued to that state. -/
lemma descent (hR : Diamond R) {n m : ℕ} {s t u : S} (hrun : Steps R n s u)
    (hend : ∀ v, ¬R u v) (h : Steps R m s t) : ∃ k, m + k = n ∧ Steps R k t u := by
  induction h with
  | refl s => exact ⟨n, Nat.zero_add n, hrun⟩
  | tail _ hlast ih =>
      obtain ⟨k, hk, hrest⟩ := ih hrun
      obtain ⟨k', rfl, hrest'⟩ := hrest.strip hR hend hlast
      exact ⟨k', by omega, hrest'⟩

end Steps

end Whuctf
