import Mathlib.Data.List.Basic
import Mathlib.Data.Nat.Notation
import Mathlib.Logic.Relation
import Mathlib.Tactic.TypeStar

/-!
# Runs of a program that draws numbers

A run is given by the values that its calls of a random source return, in order.  A list of values may
stop short of a whole run, or hold a value that the call does not return; then it is not the list of a
run that returns.

What a computation can return is described from both sides.  `Ensures x Q` says that `x` raises nothing,
whatever is drawn, and that what it returns satisfies `Q`; there is a rule for each way of putting
computations together, and one for a loop over consecutive indices under an invariant.  In the other
direction `bind_of_eq_ok` and `draw_cons` run a computation on values that it accepts, so that a list of
such values is shown to be the list of a run that returns.

A loop that draws in every pass ends with the values at the latest, so `loop` needs no more passes than
there are values (`loop_eq`).  What it returns comes from a last pass after passes that went on
(`loop_eq_ok_iff`).
-/

namespace Whuctf.Draws

/-- Why a list of values is not that of a run that returns. -/
inductive Stop (E : Type)
  | raises (e : E)
  | endless
  | notARun
  deriving DecidableEq, Repr

/-- A computation that draws values and can raise: it takes the list of what the calls return, and
leaves what it has not drawn. -/
abbrev Run (E : Type) := StateT (List ℕ) (Except (Stop E))

section Draw

variable {E α β σ : Type}

/-- A step that can raise, and draws nothing; its exception ends the run. -/
def raising : Except E α → Run E α
  | .ok a => pure a
  | .error e => throw (.raises e)

/-- A call that returns one of the accepted values.  A value that is not accepted is not one that the
call returns, and the list that holds it there is not that of a run. -/
def draw (accepts : ℕ → Prop) [DecidablePred accepts] : Run E ℕ
  | [] => .error .notARun
  | value :: rest => if accepts value then .ok (value, rest) else .error .notARun

lemma draw_cons {accepts : ℕ → Prop} [DecidablePred accepts] {value : ℕ} (h : accepts value)
    (rest : List ℕ) : draw (E := E) accepts (value :: rest) = .ok (value, rest) := if_pos h

lemma draw_eq_ok {accepts : ℕ → Prop} [DecidablePred accepts] {value : ℕ} {draws rest : List ℕ}
    (h : draw (E := E) accepts draws = .ok (value, rest)) : accepts value ∧ draws = value :: rest := by
  cases draws with
  | nil => cases h
  | cons first others =>
    by_cases hfirst : accepts first
    · rw [draw_cons hfirst] at h
      cases h
      exact ⟨hfirst, rfl⟩
    · rw [draw, if_neg hfirst] at h
      cases h

/-- A sequence of two computations returns when both do: the second goes on with what the first has
left of the draws. -/
lemma bind_eq_ok {x : Run E α} {f : α → Run E β} {b : β} {draws rest : List ℕ}
    (h : (x >>= f) draws = .ok (b, rest)) :
    ∃ a mid, x draws = .ok (a, mid) ∧ f a mid = .ok (b, rest) := by
  have hbind : (x >>= f) draws = (x draws >>= fun p => f p.1 p.2) := rfl
  rw [hbind] at h
  cases hx : x draws with
  | error stop =>
    rw [hx] at h
    cases h
  | ok p =>
    rw [hx] at h
    exact ⟨p.1, p.2, rfl, h⟩

lemma bind_of_eq_ok {x : Run E α} {a : α} {draws mid : List ℕ} (h : x draws = .ok (a, mid))
    (f : α → Run E β) : (x >>= f) draws = f a mid := by
  have hbind : (x >>= f) draws = (x draws >>= fun p => f p.1 p.2) := rfl
  rw [hbind, h]
  rfl

end Draw

/-! ## What a drawing computation ensures

Partial correctness together with the absence of exceptions.  A list of values that is not that of a run
says nothing, so the rules never ask whether the values are those of one. -/

section Ensures

variable {E α β σ : Type} {Q : α → Prop} {R : β → Prop}

/-- Whatever is drawn, the computation raises nothing, and what it returns satisfies `Q`. -/
def Ensures (x : Run E α) (Q : α → Prop) : Prop :=
  ∀ draws, (∀ e, x draws ≠ .error (.raises e)) ∧ ∀ a rest, x draws = .ok (a, rest) → Q a

lemma ensures_pure {a : α} (h : Q a) : Ensures (pure a : Run E α) Q := by
  intro draws
  have hpure : (pure a : Run E α) draws = .ok (a, draws) := rfl
  rw [hpure]
  constructor
  · intro e heq
    cases heq
  · intro b rest heq
    obtain rfl : a = b := congrArg Prod.fst (Except.ok.inj heq)
    exact h

lemma Ensures.bind {x : Run E α} {f : α → Run E β} (hx : Ensures x Q)
    (hf : ∀ a, Q a → Ensures (f a) R) : Ensures (x >>= f) R := by
  intro draws
  obtain ⟨hraises, hreturns⟩ := hx draws
  have hbind : (x >>= f) draws = (x draws >>= fun p => f p.1 p.2) := rfl
  rw [hbind]
  cases hrun : x draws with
  | ok p => exact hf p.1 (hreturns p.1 p.2 hrun) p.2
  | error stop =>
    constructor
    · intro e heq
      exact hraises e (hrun.trans (congrArg Except.error (Except.error.inj heq)))
    · intro b rest heq
      cases heq

lemma ensures_draw (accepts : ℕ → Prop) [DecidablePred accepts] :
    Ensures (draw accepts : Run E ℕ) accepts := by
  intro draws
  constructor
  · intro e heq
    cases draws with
    | nil => cases heq
    | cons value rest =>
      by_cases hvalue : accepts value
      · rw [draw_cons hvalue] at heq
        cases heq
      · rw [draw, if_neg hvalue] at heq
        cases heq
  · intro value rest heq
    exact (draw_eq_ok heq).1

lemma ensures_raising {x : Except E α} {a : α} (h : x = .ok a) :
    Ensures (raising x) fun b => b = a := by
  rw [h]
  exact ensures_pure rfl

/-- A loop over consecutive indices, under an invariant that each turn takes to the next index. -/
lemma ensures_foldlM {f : σ → ℕ → Run E σ} {I : ℕ → σ → Prop}
    (hstep : ∀ i state, I i state → Ensures (f state i) (I (i + 1))) (k : ℕ) {i : ℕ} {state : σ}
    (h : I i state) : Ensures ((List.range' i k).foldlM f state) (I (i + k)) := by
  induction k generalizing i state with
  | zero => exact ensures_pure h
  | succ k ih =>
    rw [List.range'_succ, List.foldlM_cons]
    apply (hstep i state h).bind
    intro state' hstate'
    have hrest := ih hstate'
    rwa [Nat.add_assoc, Nat.add_comm 1 k] at hrest

end Ensures

/-! ## Loops -/

section Loop

variable {E β σ : Type}

/-- At most `fuel` passes; a computation that would need more is not a run. -/
def passes (pass : σ → Run E (σ ⊕ β)) : ℕ → σ → Run E β
  | 0, _ => throw .notARun
  | fuel + 1, s => do
      match ← pass s with
      | .inl s => passes pass fuel s
      | .inr b => return b

/-- `while True`, with a pass that draws; it goes on with a state or leaves with a result. -/
def loop (pass : σ → Run E (σ ⊕ β)) (s : σ) : Run E β := fun draws =>
  passes pass (draws.length + 1) s draws

/-- Every pass that goes on draws, so it leaves fewer values than it has found. -/
def Consumes (pass : σ → Run E (σ ⊕ β)) : Prop :=
  ∀ s draws next rest, pass s draws = .ok (.inl next, rest) → rest.length < draws.length

/-- One pass that goes on, from a state and the draws that are left to the next. -/
def GoesOn (pass : σ → Run E (σ ⊕ β)) (x y : σ × List ℕ) : Prop :=
  pass x.1 x.2 = .ok (.inl y.1, y.2)

variable {pass : σ → Run E (σ ⊕ β)}

lemma passes_succ (fuel : ℕ) (s : σ) (draws : List ℕ) :
    passes pass (fuel + 1) s draws = match pass s draws with
      | .error stop => .error stop
      | .ok (.inl next, rest) => passes pass fuel next rest
      | .ok (.inr b, rest) => .ok (b, rest) := by
  have hbind : passes pass (fuel + 1) s draws = (pass s draws >>= fun r =>
      (match r.1 with
      | .inl next => passes pass fuel next
      | .inr b => pure b : Run E β) r.2) := rfl
  rw [hbind]
  cases pass s draws with
  | error stop => rfl
  | ok r =>
    obtain ⟨next | b, rest⟩ := r
    · rfl
    · rfl

/-- More passes than values make no difference, since each pass that goes on takes at least one value. -/
lemma passes_eq (hpass : Consumes pass) {fuel fuel' : ℕ} {s : σ} {draws : List ℕ}
    (h : draws.length < fuel) (h' : draws.length < fuel') :
    passes pass fuel s draws = passes pass fuel' s draws := by
  induction fuel generalizing fuel' s draws with
  | zero => omega
  | succ fuel ih =>
    obtain ⟨fuel', rfl⟩ : ∃ k, fuel' = k + 1 := ⟨fuel' - 1, by omega⟩
    rw [passes_succ, passes_succ]
    cases hrun : pass s draws with
    | error stop => rfl
    | ok r =>
      obtain ⟨next | b, rest⟩ := r
      · have hlt := hpass s draws _ rest hrun
        exact ih (by omega) (by omega)
      · rfl

/-- A loop is its first pass and then itself, with the state and the draws that pass has left. -/
lemma loop_eq (hpass : Consumes pass) (s : σ) (draws : List ℕ) :
    loop pass s draws = match pass s draws with
      | .error stop => .error stop
      | .ok (.inl next, rest) => loop pass next rest
      | .ok (.inr b, rest) => .ok (b, rest) := by
  rw [loop, passes_succ]
  cases hrun : pass s draws with
  | error stop => rfl
  | ok r =>
    obtain ⟨next | b, rest⟩ := r
    · have hlt := hpass s draws _ rest hrun
      exact passes_eq hpass hlt (Nat.lt_succ_self _)
    · rfl

lemma loop_of_goesOn (hpass : Consumes pass) {x last : σ × List ℕ}
    (hreach : Relation.ReflTransGen (GoesOn pass) x last) {b : β} {rest : List ℕ}
    (hlast : pass last.1 last.2 = .ok (.inr b, rest)) : loop pass x.1 x.2 = .ok (b, rest) := by
  induction hreach using Relation.ReflTransGen.head_induction_on with
  | refl => rw [loop_eq hpass, hlast]
  | head hstep _ ih =>
    rw [GoesOn] at hstep
    rw [loop_eq hpass, hstep]
    exact ih

/-- **What a loop returns.**  A last pass leaves with it, after passes that went on. -/
theorem loop_eq_ok_iff (hpass : Consumes pass) {s : σ} {draws rest : List ℕ} {b : β} :
    loop pass s draws = .ok (b, rest) ↔
      ∃ last, Relation.ReflTransGen (GoesOn pass) (s, draws) last ∧
        pass last.1 last.2 = .ok (.inr b, rest) := by
  constructor
  · intro h
    induction hn : draws.length using Nat.strongRecOn generalizing s draws with
    | ind n ih =>
      subst hn
      rw [loop_eq hpass] at h
      cases hrun : pass s draws with
      | error stop =>
        rw [hrun] at h
        cases h
      | ok r =>
        obtain ⟨next | b', mid⟩ := r
        · rw [hrun] at h
          obtain ⟨last, hreach, hlast⟩ := ih _ (hpass s draws _ mid hrun) h rfl
          have hfirst : GoesOn pass (s, draws) (next, mid) := hrun
          exact ⟨last, hreach.head hfirst, hlast⟩
        · rw [hrun] at h
          cases h
          exact ⟨(s, draws), .refl, hrun⟩
  · rintro ⟨last, hreach, hlast⟩
    exact loop_of_goesOn hpass hreach hlast

end Loop

end Whuctf.Draws
