import Mathlib.Data.List.Basic

/-!
# Objects that end with their scope

A program that keeps each object in a scope ends it where the scope ends, whichever way the body of the
scope returns.  The computations here leave a trace of the objects that they make, use and end.
`replay` follows a trace with the stack of the objects that live: it is defined as long as every use is
of one of these, and every end that of the last one made.

`Ensures live x R` says that the trace of `x` can be replayed while the objects `live` do, that it leaves
these if `x` returns, and that the result and the actions of the trace satisfy `R`.  There is a rule for
each way of putting computations together.
-/

namespace Whuctf.Scope

/-- What a trace is made of: an action is done with an object or without one. -/
inductive Event (P A : Type)
  | created (p : P)
  | used (p : P) (action : A)
  | destroyed (p : P)
  | done (action : A)
  deriving DecidableEq, Repr

/-- A computation that can fault, on a state and the trace so far. -/
abbrev Action (σ ε P A : Type) := ExceptT ε (StateM (σ × List (Event P A)))

section Program

variable {σ ε P A α : Type}

/-- A function from outside: it may change the state in any way, and leaves no trace. -/
def act (f : σ → α × σ) : Action σ ε P A α :=
  ExceptT.mk fun (s, trace) => (.ok (f s).1, (f s).2, trace)

def note (event : Event P A) : Action σ ε P A Unit :=
  ExceptT.mk fun (s, trace) => (.ok (), s, trace ++ [event])

/-- A method of an object: the trace says which object and, by its result, which action. -/
def use (p : P) (describe : α → A) (f : σ → α × σ) : Action σ ε P A α := do
  let a ← act f
  note (.used p (describe a))
  return a

/-- An action without an object: the state changes, and the trace has a note of it. -/
def perform (action : A) (f : σ → σ) : Action σ ε P A Unit := do
  act fun s => ((), f s)
  note (.done action)

/-- An object for the time of a body: it is made before and ended behind it, also when the body faults.
-/
def scope (make : Action σ ε P A P) (finish : P → σ → σ) (body : P → Action σ ε P A α) :
    Action σ ε P A α := do
  let p ← make
  note (.created p)
  let a ← body p
  act fun s => ((), finish p s)
  note (.destroyed p)
  return a

end Program

/-! ## Replaying a trace

The stack has the object made last on top.  An event that uses an object looks for it anywhere on the
stack, and one that ends an object takes it from the top. -/

section Replay

variable {P A : Type}

/-- The actions of a trace, in order, whether an object was used for them or not. -/
def actions : List (Event P A) → List A
  | [] => []
  | .used _ action :: rest => action :: actions rest
  | .done action :: rest => action :: actions rest
  | .created _ :: rest => actions rest
  | .destroyed _ :: rest => actions rest

lemma actions_append (trace trace' : List (Event P A)) :
    actions (trace ++ trace') = actions trace ++ actions trace' := by
  induction trace with
  | nil => rfl
  | cons event rest ih =>
    cases event with
    | created p => exact ih
    | destroyed p => exact ih
    | used p action => exact congrArg (action :: ·) ih
    | done action => exact congrArg (action :: ·) ih

variable [DecidableEq P]

/-- What an event makes of the objects that live: the newest is in front, an object can be used only
while it lives, and the newest is destroyed first. -/
def follow (live : List P) : Event P A → Option (List P)
  | .created p => some (p :: live)
  | .used p _ => if p ∈ live then some live else none
  | .destroyed p => if live.head? = some p then some live.tail else none
  | .done _ => some live

/-- What a trace makes of the objects that live, and nothing if one of its events breaks the order. -/
def replay (live : List P) (trace : List (Event P A)) : Option (List P) := trace.foldlM follow live

lemma replay_append (live : List P) (trace trace' : List (Event P A)) :
    replay live (trace ++ trace') = (replay live trace).bind fun live' => replay live' trace' :=
  List.foldlM_append

end Replay

/-! ## The rules

Each rule is for one way in which a program goes on: a sequence, a call from outside, an action, a
scope.  They are applied in the order of the program, and what is left to prove is about results and
actions only. -/

section Ensures

variable {σ ε P A α β : Type} [DecidableEq P]

/-- The objects that live before a computation and after it, if it returns, and what it returns after
which actions. -/
def Ensures (live live' : List P) (x : Action σ ε P A α) (R : Except ε α → List A → Prop) : Prop :=
  ∀ s before, ∃ result s' trace, x.run.run (s, before) = (result, s', before ++ trace) ∧
    (∃ rest, replay live trace = some rest ∧ ∀ a, result = .ok a → rest = live') ∧
    R result (actions trace)

variable {live mid live' : List P} {R : Except ε α → List A → Prop}

lemma ensures_pure {a : α} (h : R (.ok a) []) :
    Ensures live live (pure a : Action σ ε P A α) R := by
  intro s before
  exact ⟨.ok a, s, [], by rw [List.append_nil]; rfl, ⟨live, rfl, fun _ _ => rfl⟩, h⟩

lemma ensures_throw {e : ε} (h : R (.error e) []) :
    Ensures live live' (throw e : Action σ ε P A α) R := by
  intro s before
  exact ⟨.error e, s, [], by rw [List.append_nil]; rfl, ⟨live, rfl, nofun⟩, h⟩

lemma ensures_act {f : σ → α × σ} (h : ∀ s, R (.ok (f s).1) []) :
    Ensures live live (act f : Action σ ε P A α) R := by
  intro s before
  exact ⟨_, (f s).2, [], by rw [List.append_nil]; rfl, ⟨live, rfl, fun _ _ => rfl⟩, h _⟩

lemma ensures_note {event : Event P A} {R : Except ε Unit → List A → Prop}
    (hevent : follow live event = some live') (h : R (.ok ()) (actions [event])) :
    Ensures live live' (note event : Action σ ε P A Unit) R := by
  intro s before
  refine ⟨.ok (), s, [event], rfl, ⟨live', ?_, fun _ _ => rfl⟩, h⟩
  rw [replay, List.foldlM_cons, hevent]
  rfl

lemma Ensures.mono {x : Action σ ε P A α} {R' : Except ε α → List A → Prop}
    (hx : Ensures live live' x R) (h : ∀ result l, R result l → R' result l) :
    Ensures live live' x R' := by
  intro s before
  obtain ⟨result, s', trace, hrun, hreplay, hR⟩ := hx s before
  exact ⟨result, s', trace, hrun, hreplay, h _ _ hR⟩

/-- One computation after another: the second is looked at for each value the first can return, and an
exception of the first is the result. -/
lemma Ensures.bind {x : Action σ ε P A α} {f : α → Action σ ε P A β} {S : Except ε β → List A → Prop}
    (hx : Ensures live mid x R)
    (hok : ∀ a l, R (.ok a) l → Ensures mid live' (f a) fun result l' => S result (l ++ l'))
    (herror : ∀ e l, R (.error e) l → S (.error e) l) : Ensures live live' (x >>= f) S := by
  intro s before
  obtain ⟨result, s', trace, hrun, ⟨rest, hreplay, hlive⟩, hR⟩ := hx s before
  rw [ExceptT.run_bind, StateT.run_bind, hrun]
  cases result with
  | error e => exact ⟨.error e, s', trace, rfl, ⟨rest, hreplay, nofun⟩, herror e _ hR⟩
  | ok a =>
    obtain rfl := hlive a rfl
    obtain ⟨result', s'', trace', hrun', ⟨rest', hreplay', hlive'⟩, hS⟩ :=
      hok a _ hR s' (before ++ trace)
    refine ⟨result', s'', trace ++ trace', ?_, ⟨rest', ?_, hlive'⟩, ?_⟩
    · rw [← List.append_assoc]
      exact hrun'
    · rw [replay_append, hreplay]
      exact hreplay'
    · rw [actions_append]
      exact hS

/-- A function from outside, and what follows: it leaves no trace, so what follows has to be shown for
every state it may leave. -/
lemma ensures_act_bind {f : σ → β × σ} {k : β → Action σ ε P A α}
    (h : ∀ s, Ensures live live' (k (f s).1) R) : Ensures live live' (act f >>= k) R := by
  apply Ensures.bind (R := fun result l => l = [] ∧ ∃ s, result = .ok (f s).1)
  · exact ensures_act fun s => ⟨rfl, s, rfl⟩
  · rintro b l ⟨rfl, s, hb⟩
    cases hb
    exact h s
  · rintro e l ⟨-, s, hs⟩
    cases hs

/-- An event, and what follows: the rest of the computation starts with the objects that live behind
the event. -/
lemma ensures_note_bind {event : Event P A} (hevent : follow live event = some mid)
    {k : Unit → Action σ ε P A α}
    (h : Ensures mid live' (k ()) fun result l => R result (actions [event] ++ l)) :
    Ensures live live' (note event >>= k) R := by
  apply Ensures.bind (R := fun result l => l = actions [event] ∧ result = .ok ())
  · exact ensures_note hevent ⟨rfl, rfl⟩
  · rintro ⟨⟩ l ⟨rfl, -⟩
    exact h
  · rintro e l ⟨-, he⟩
    cases he

lemma follow_used {p : P} (hp : p ∈ live) (action : A) : follow live (.used p action) = some live :=
  if_pos hp

/-- A method of an object that lives, and what follows. -/
lemma ensures_use_bind {p : P} (hp : p ∈ live) {describe : β → A} {f : σ → β × σ}
    {k : β → Action σ ε P A α}
    (h : ∀ s, Ensures live live' (k (f s).1) fun result l => R result (describe (f s).1 :: l)) :
    Ensures live live' (use p describe f >>= k) R := by
  rw [use, bind_assoc]
  apply ensures_act_bind
  intro s
  rw [bind_assoc]
  exact ensures_note_bind (follow_used hp _) (h s)

lemma ensures_perform_bind {action : A} {f : σ → σ} {k : Unit → Action σ ε P A α}
    (h : Ensures live live' (k ()) fun result l => R result (action :: l)) :
    Ensures live live' (perform action f >>= k) R := by
  rw [perform, bind_assoc]
  apply ensures_act_bind
  intro _
  exact ensures_note_bind rfl h

/-- **Scopes.**  Whichever way the body returns, the object that was made is ended, after those that the
body made. -/
theorem ensures_scope {make : Action σ ε P A P} {finish : P → σ → σ} {body : P → Action σ ε P A α}
    {good : P → Prop}
    (hmake : Ensures live live make fun result l =>
      l = [] ∧ (∀ p, result = .ok p → good p) ∧ ∀ e, result = .error e → R (.error e) [])
    (hbody : ∀ p, good p → Ensures (p :: live) (p :: live) (body p) R) :
    Ensures live live (scope make finish body) R := by
  apply hmake.bind
  · rintro p l ⟨rfl, hgood, -⟩
    apply ensures_note_bind rfl
    apply (hbody p (hgood p rfl)).bind
    · intro a l hR
      apply ensures_act_bind
      intro _
      apply ensures_note_bind
      · exact if_pos rfl
      · apply ensures_pure
        rw [← List.append_nil l] at hR
        exact hR
    · exact fun e l hR => hR
  · rintro e l ⟨rfl, -, herror⟩
    exact herror e rfl

end Ensures

end Whuctf.Scope
