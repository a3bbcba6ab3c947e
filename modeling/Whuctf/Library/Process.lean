import Whuctf.Library.Memory
import Whuctf.Library.Transition

/-!
# Processes that read and write a byte stream

`Proc σ α` is a process on one connection.  It returns a value of `α`, halts the whole program
in a state of `σ`, writes bytes, or asks for up to `n` bytes and goes on with those it gets.
Writes always succeed in whole.

Two ways to run one are given.  `Proc.replay` answers the reads from a script, one chunk a
read, each cut to the length asked for; past the end of the script a read returns nothing, as
at the end of a stream.  A script stands for everything a peer can do to a program that reads.
`Proc.Simulates` relates a process to one over other states, and its replays with it.

In a `Duplex` two processes run against each other over two channels that both keep open.  A read waits
until the channel holds all the bytes it asks for, and the two sides take their steps in any order.  What
a process does with the bytes it has been sent does not depend on when it takes its steps:
`Proc.consume` feeds it all of them at once, and `consume_read` is what the interleaving argument
needs.  `Proc.emit` is its counterpart for pending writes.  Steps of the two sides commute
(`Duplex.diamond`), so one run to a quiet end speaks for all runs, and such a run is put together
from exchanges: one side writes all it has, the other takes it and answers (`Duplex.exchange`).
-/

namespace Whuctf

/-- A process on one connection: the next thing it does, and what it does then.  What a read goes on
with is a function of the bytes it gets, so a process is a tree over all that a peer can send. -/
inductive Proc (σ α : Type) : Type
  | ret (a : α)
  | halt (s : σ)
  | write (bs : List Byte) (next : Proc σ α)
  | read (n : ℕ) (next : List Byte → Proc σ α)

namespace Proc

variable {σ α β γ : Type}

/-- Sequencing: what follows starts with the value of a process that returns, and not at all when it
halts. -/
protected def bind : Proc σ α → (α → Proc σ β) → Proc σ β
  | ret a, f => f a
  | halt s, _ => halt s
  | write bs p, f => write bs (p.bind f)
  | read n k, f => read n fun bs => (k bs).bind f

instance : Monad (Proc σ) where
  pure := Proc.ret
  bind := Proc.bind

@[simp] lemma ret_bind (a : α) (f : α → Proc σ β) : (ret a).bind f = f a := rfl
@[simp] lemma halt_bind (s : σ) (f : α → Proc σ β) : (halt s).bind f = halt s := rfl
@[simp] lemma write_bind (bs : List Byte) (p : Proc σ α) (f : α → Proc σ β) :
    (write bs p).bind f = write bs (p.bind f) := rfl
@[simp] lemma read_bind (n : ℕ) (k : List Byte → Proc σ α) (f : α → Proc σ β) :
    (read n k).bind f = read n fun bs => (k bs).bind f := rfl

@[simp] lemma monad_bind_eq (p : Proc σ α) (f : α → Proc σ β) : p >>= f = p.bind f := rfl
@[simp] lemma monad_pure_eq (a : α) : (Pure.pure a : Proc σ α) = ret a := rfl

lemma bind_assoc (p : Proc σ α) (f : α → Proc σ β) (g : β → Proc σ γ) :
    (p.bind f).bind g = p.bind fun a => (f a).bind g := by
  induction p with
  | ret a => rfl
  | halt s => rfl
  | write bs p ih => rw [write_bind, write_bind, ih, write_bind]
  | read n k ih => simp only [read_bind, ih]

/-- Send bytes, in one write. -/
def send (bs : List Byte) : Proc σ Unit := write bs (ret ())

/-- Ask for up to `n` bytes, in one read, and return what has come. -/
def receive (n : ℕ) : Proc σ (List Byte) := read n ret

/-! ## Scripted reads

A script has one chunk for each read.  It may be shorter than what the read asks for, or empty, so
scripts describe peers that keep to no protocol, and networks that cut what they deliver. -/

/-- What a replay leaves: the bytes written, the way the process ended, and the rest of the
script. -/
structure Outcome (σ α : Type) where
  written : List Byte
  result : Except σ α
  rest : List (List Byte)

/-- Run a process on a script of answers, one for each read, to its return or halt. -/
def replay : Proc σ α → List (List Byte) → Outcome σ α
  | ret a, script => ⟨[], .ok a, script⟩
  | halt s, script => ⟨[], .error s, script⟩
  | write bs p, script =>
      let o := replay p script
      { o with written := bs ++ o.written }
  | read n k, script => replay (k ((script.headD []).take n)) script.tail

lemma replay_bind (p : Proc σ α) (f : α → Proc σ β) (script : List (List Byte)) :
    replay (p.bind f) script =
      match (replay p script).result with
      | .ok a =>
          let o := replay (f a) (replay p script).rest
          { o with written := (replay p script).written ++ o.written }
      | .error s => ⟨(replay p script).written, .error s, (replay p script).rest⟩ := by
  induction p generalizing script with
  | ret a => simp [replay]
  | halt s => rfl
  | write bs p ih =>
      rw [write_bind, replay, ih]
      cases h : (replay p script).result with
      | ok a => simp [replay, h]
      | error s => simp [replay, h]
  | read n k ih => exact ih _ _

/-- How two processes in sequence end: as the first if that halts, and otherwise as the second on the
rest of the script. -/
lemma replay_bind_result (p : Proc σ α) (f : α → Proc σ β) (script : List (List Byte)) :
    (replay (p.bind f) script).result =
      match (replay p script).result with
      | .ok a => (replay (f a) (replay p script).rest).result
      | .error s => .error s := by
  rw [replay_bind]
  cases (replay p script).result <;> rfl

/-! ## Simulation

Two processes over different states, such as a state and a memory that holds it.  They write and ask
for the same, so that no peer can tell them apart, and end in related states. -/

section Simulation

variable {τ δ : Type} {S : σ → τ → Prop} {R : α → β → Prop} {R' : γ → δ → Prop}

/-- Two processes that read and write alike, and end in related values or states. -/
inductive Simulates (S : σ → τ → Prop) (R : α → β → Prop) : Proc σ α → Proc τ β → Prop
  | ret {a : α} {b : β} (h : R a b) : Simulates S R (.ret a) (.ret b)
  | halt {s : σ} {t : τ} (h : S s t) : Simulates S R (.halt s) (.halt t)
  | write (bs : List Byte) {p : Proc σ α} {q : Proc τ β} (h : Simulates S R p q) :
      Simulates S R (.write bs p) (.write bs q)
  | read {n : ℕ} {k : List Byte → Proc σ α} {l : List Byte → Proc τ β}
      (h : ∀ bs, bs.length ≤ n → Simulates S R (k bs) (l bs)) :
      Simulates S R (.read n k) (.read n l)

lemma Simulates.bind {p : Proc σ α} {q : Proc τ β} {f : α → Proc σ γ} {g : β → Proc τ δ}
    (h : Simulates S R p q) (hnext : ∀ a b, R a b → Simulates S R' (f a) (g b)) :
    Simulates S R' (p.bind f) (q.bind g) := by
  induction h with
  | ret h => exact hnext _ _ h
  | halt h => exact .halt h
  | write bs _ ih => exact .write bs ih
  | read _ ih => exact .read ih

/-- Two ends of a process, both returned with related values or both halted in related states. -/
def EndsAlike (S : σ → τ → Prop) (R : α → β → Prop) : Except σ α → Except τ β → Prop
  | .ok a, .ok b => R a b
  | .error s, .error t => S s t
  | _, _ => False

/-- On every script the two write the same bytes, take the same chunks and end alike. -/
lemma Simulates.replay {p : Proc σ α} {q : Proc τ β} (h : Simulates S R p q)
    (script : List (List Byte)) :
    (p.replay script).written = (q.replay script).written ∧
      (p.replay script).rest = (q.replay script).rest ∧
      EndsAlike S R (p.replay script).result (q.replay script).result := by
  induction h generalizing script with
  | ret h => exact ⟨rfl, rfl, h⟩
  | halt h => exact ⟨rfl, rfl, h⟩
  | write bs _ ih =>
      obtain ⟨hwritten, hrest, hends⟩ := ih script
      exact ⟨congrArg (bs ++ ·) hwritten, hrest, hends⟩
  | read _ ih => exact ih _ (List.length_take_le _ _) script.tail

end Simulation

/-! ## Pending writes -/

/-- The bytes a process writes before it does anything else, and what it does then. -/
def emit : Proc σ α → List Byte × Proc σ α
  | write bs p => (bs ++ (emit p).1, (emit p).2)
  | ret a => ([], ret a)
  | halt s => ([], halt s)
  | read n k => ([], read n k)

/-- The number of its pending writes, before its next read or its end. -/
def writes : Proc σ α → ℕ
  | write _ p => p.writes + 1
  | ret _ | halt _ | read _ _ => 0

/-- What follows a process that has come to a read does not show in its writes. -/
lemma emit_bind_read {p : Proc σ α} {k : List Byte → Proc σ α} {n : ℕ} {bs : List Byte}
    (h : p.emit = (bs, .read n k)) (f : α → Proc σ β) :
    (p.bind f).emit = (bs, .read n fun cs => (k cs).bind f) := by
  induction p generalizing bs with
  | write cs p ih =>
      obtain ⟨hbs, hread⟩ := Prod.mk.inj h
      have hrest := ih (Prod.ext rfl hread)
      rw [write_bind, emit, hrest, ← hbs]
  | read m k' ih =>
      cases h
      rfl
  | ret a => cases h
  | halt s => cases h

lemma writes_bind_read {p : Proc σ α} {k : List Byte → Proc σ α} {n : ℕ} {bs : List Byte}
    (h : p.emit = (bs, .read n k)) (f : α → Proc σ β) : (p.bind f).writes = p.writes := by
  induction p generalizing bs with
  | write cs p ih => exact congrArg (· + 1) (ih (Prod.ext rfl (Prod.mk.inj h).2))
  | read m k' ih => rfl
  | ret a => cases h
  | halt s => cases h

/-! ## Waiting for whole reads

On a connection that both sides keep open, a read is served when the channel holds all it asks for.
`consume` serves as many reads as the bytes suffice for, which is where the process will stand however
the bytes come in. -/

/-- Feed a process as many of its reads as the bytes suffice for. -/
def consume : Proc σ α → List Byte → Proc σ α × List Byte
  | read n k, bs =>
      if n ≤ bs.length then consume (k (bs.take n)) (bs.drop n) else (read n k, bs)
  | ret a, bs => (ret a, bs)
  | halt s, bs => (halt s, bs)
  | write cs p, bs => (write cs p, bs)

/-- The number of reads the bytes suffice for, each in full, before the process writes or ends. -/
def reads : Proc σ α → List Byte → ℕ
  | read n k, bs => if n ≤ bs.length then reads (k (bs.take n)) (bs.drop n) + 1 else 0
  | ret _, _ | halt _, _ | write _ _, _ => 0

/-- A read served from the front of the stream changes nothing about what the whole stream
will be consumed to. -/
lemma consume_read {n : ℕ} {k : List Byte → Proc σ α} {bs : List Byte} (h : n ≤ bs.length)
    (cs : List Byte) :
    consume (read n k) (bs ++ cs) = consume (k (bs.take n)) (bs.drop n ++ cs) := by
  have hlen : n ≤ (bs ++ cs).length := by
    rw [List.length_append]
    omega
  rw [consume, if_pos hlen, List.take_append_of_le_length h, List.drop_append_of_le_length h]

lemma reads_read {n : ℕ} {k : List Byte → Proc σ α} {bs : List Byte} (h : n ≤ bs.length)
    (cs : List Byte) :
    reads (read n k) (bs ++ cs) = reads (k (bs.take n)) (bs.drop n ++ cs) + 1 := by
  have hlen : n ≤ (bs ++ cs).length := by
    rw [List.length_append]
    omega
  rw [reads, if_pos hlen, List.take_append_of_le_length h, List.drop_append_of_le_length h]

/-- Fed with `bs`, the process `p` makes `n` reads and stands at `q`, with `rest` left over. -/
structure Takes (p : Proc σ α) (bs : List Byte) (n : ℕ) (q : Proc σ α) (rest : List Byte) :
    Prop where
  consume_eq : p.consume bs = (q, rest)
  reads_eq : p.reads bs = n

namespace Takes

lemma ret (a : α) (bs : List Byte) : Takes (.ret a : Proc σ α) bs 0 (.ret a) bs := ⟨rfl, rfl⟩

lemma write (cs : List Byte) (p : Proc σ α) (bs : List Byte) :
    Takes (.write cs p) bs 0 (.write cs p) bs := ⟨rfl, rfl⟩

lemma read {n m : ℕ} {k : List Byte → Proc σ α} {q : Proc σ α} {bs cs rest : List Byte}
    (hn : bs.length = n) (h : Takes (k bs) cs m q rest) :
    Takes (.read n k) (bs ++ cs) (m + 1) q rest := by
  have htake : bs.take n = bs := List.take_of_length_le hn.le
  have hdrop : bs.drop n = [] := List.drop_of_length_le hn.le
  constructor
  · rw [consume_read hn.ge, htake, hdrop, List.nil_append, h.consume_eq]
  · rw [reads_read hn.ge, htake, hdrop, List.nil_append, h.reads_eq]

/-- Processes run one after the other take their bytes one after the other. -/
lemma bind {p : Proc σ α} {f : α → Proc σ β} {a : α} {q : Proc σ β} {n m : ℕ}
    {bs cs rest : List Byte} (hp : Takes p bs n (.ret a) cs) (hf : Takes (f a) cs m q rest) :
    Takes (p.bind f) bs (n + m) q rest := by
  induction p generalizing bs n with
  | ret b =>
      obtain ⟨hret, hcs⟩ := Prod.mk.inj hp.consume_eq
      cases hret
      cases hcs
      rw [show n = 0 from hp.reads_eq.symm, Nat.zero_add]
      exact hf
  | halt s =>
      obtain ⟨hret, -⟩ := Prod.mk.inj hp.consume_eq
      cases hret
  | write ws p ih =>
      obtain ⟨hret, -⟩ := Prod.mk.inj hp.consume_eq
      cases hret
  | read l k ih =>
      have hconsume := hp.consume_eq
      have hreads := hp.reads_eq
      by_cases hl : l ≤ bs.length
      · rw [consume, if_pos hl] at hconsume
        rw [reads, if_pos hl] at hreads
        have hrest := ih (bs.take l) ⟨hconsume, rfl⟩
        rw [read_bind]
        constructor
        · rw [consume, if_pos hl, hrest.consume_eq]
        · rw [reads, if_pos hl, hrest.reads_eq, ← hreads]
          omega
      · rw [consume, if_neg hl] at hconsume
        obtain ⟨hret, -⟩ := Prod.mk.inj hconsume
        cases hret

lemma halt (s : σ) (bs : List Byte) : Takes (.halt s : Proc σ α) bs 0 (.halt s) bs := ⟨rfl, rfl⟩

/-- A process that halts on its bytes halts in any sequence it begins. -/
lemma bind_halt {p : Proc σ α} {s : σ} {n : ℕ} {bs cs : List Byte}
    (hp : Takes p bs n (.halt s) cs) (f : α → Proc σ β) : Takes (p.bind f) bs n (.halt s) cs := by
  induction p generalizing bs n with
  | ret b =>
      obtain ⟨hret, -⟩ := Prod.mk.inj hp.consume_eq
      cases hret
  | halt t =>
      obtain ⟨hhalt, hcs⟩ := Prod.mk.inj hp.consume_eq
      cases hhalt
      exact ⟨congrArg (Prod.mk _) hcs, hp.reads_eq⟩
  | write ws p ih =>
      obtain ⟨hret, -⟩ := Prod.mk.inj hp.consume_eq
      cases hret
  | read l k ih =>
      have hconsume := hp.consume_eq
      have hreads := hp.reads_eq
      by_cases hl : l ≤ bs.length
      · rw [consume, if_pos hl] at hconsume
        rw [reads, if_pos hl] at hreads
        have hrest := ih (bs.take l) ⟨hconsume, rfl⟩
        rw [read_bind]
        constructor
        · rw [consume, if_pos hl, hrest.consume_eq]
        · rw [reads, if_pos hl, hrest.reads_eq, ← hreads]
      · rw [consume, if_neg hl] at hconsume
        obtain ⟨hret, -⟩ := Prod.mk.inj hconsume
        cases hret

end Takes

end Proc

/-! ## Two processes over two channels

The state of a connection is the two processes and what is in flight in each direction.  Every step is
that of one side: a write appends to the channel of the other side, a read takes from its own. -/

/-- Two processes and the bytes in flight to each, in the order in which they were written. -/
structure Duplex (σ α τ β : Type) where
  left : Proc σ α
  right : Proc τ β
  toLeft : List Byte
  toRight : List Byte

namespace Duplex

variable {σ α τ β : Type}

/-- One side takes a step on a connection that both keep open.  A read takes its bytes whole: it waits
until the channel holds all it asks for, since more can always come.  What a side meets that reads or
writes when the other is gone are the steps of `Hangup`. -/
inductive Step : Duplex σ α τ β → Duplex σ α τ β → Prop
  | leftWrite (bs : List Byte) (p : Proc σ α) (q : Proc τ β) (l r : List Byte) :
      Step ⟨.write bs p, q, l, r⟩ ⟨p, q, l, r ++ bs⟩
  | rightWrite (bs : List Byte) (p : Proc σ α) (q : Proc τ β) (l r : List Byte) :
      Step ⟨p, .write bs q, l, r⟩ ⟨p, q, l ++ bs, r⟩
  | leftRead (n : ℕ) (k : List Byte → Proc σ α) (q : Proc τ β) (l r : List Byte)
      (h : n ≤ l.length) : Step ⟨.read n k, q, l, r⟩ ⟨k (l.take n), q, l.drop n, r⟩
  | rightRead (n : ℕ) (p : Proc σ α) (k : List Byte → Proc τ β) (l r : List Byte)
      (h : n ≤ r.length) : Step ⟨p, .read n k, l, r⟩ ⟨p, k (r.take n), l, r.drop n⟩

/-! ### The order of the steps -/

/-- Bytes that arrive behind those a read takes do not change it. -/
lemma Step.leftRead_append {n : ℕ} (k : List Byte → Proc σ α) (q : Proc τ β) {l : List Byte}
    (bs r : List Byte) (h : n ≤ l.length) :
    Step ⟨.read n k, q, l ++ bs, r⟩ ⟨k (l.take n), q, l.drop n ++ bs, r⟩ := by
  have hlen : n ≤ (l ++ bs).length := by
    rw [List.length_append]
    omega
  have hstep := Step.leftRead n k q (l ++ bs) r hlen
  rwa [List.take_append_of_le_length h, List.drop_append_of_le_length h] at hstep

lemma Step.rightRead_append {n : ℕ} (p : Proc σ α) (k : List Byte → Proc τ β) (l : List Byte)
    {r : List Byte} (bs : List Byte) (h : n ≤ r.length) :
    Step ⟨p, .read n k, l, r ++ bs⟩ ⟨p, k (r.take n), l, r.drop n ++ bs⟩ := by
  have hlen : n ≤ (r ++ bs).length := by
    rw [List.length_append]
    omega
  have hstep := Step.rightRead n p k l (r ++ bs) hlen
  rwa [List.take_append_of_le_length h, List.drop_append_of_le_length h] at hstep

/-- Each side has one next step, and steps of the two sides commute. -/
lemma diamond : Diamond (Step : Duplex σ α τ β → Duplex σ α τ β → Prop) := by
  intro d d₁ d₂ h₁ h₂
  cases h₁ with
  | leftWrite bs p q l r =>
      cases h₂ with
      | leftWrite => exact Or.inl rfl
      | rightWrite cs _ q => exact Or.inr ⟨_, .rightWrite cs p q l _, .leftWrite bs p q _ r⟩
      | rightRead n _ k _ _ h =>
          exact Or.inr ⟨_, .rightRead_append p k l bs h, .leftWrite bs p _ l _⟩
  | rightWrite bs p q l r =>
      cases h₂ with
      | rightWrite => exact Or.inl rfl
      | leftWrite cs p => exact Or.inr ⟨_, .leftWrite cs p q _ r, .rightWrite bs p q l _⟩
      | leftRead n k _ _ _ h =>
          exact Or.inr ⟨_, .leftRead_append k q bs r h, .rightWrite bs _ q _ r⟩
  | leftRead n k q l r h =>
      cases h₂ with
      | leftRead => exact Or.inl rfl
      | rightWrite cs _ q => exact Or.inr ⟨_, .rightWrite cs _ q _ r, .leftRead_append k q cs r h⟩
      | rightRead m _ k' _ _ h' =>
          exact Or.inr ⟨_, .rightRead m _ k' _ r h', .leftRead n k _ l _ h⟩
  | rightRead n p k l r h =>
      cases h₂ with
      | rightRead => exact Or.inl rfl
      | leftWrite cs p => exact Or.inr ⟨_, .leftWrite cs p _ l _, .rightRead_append p k l cs h⟩
      | leftRead m k' _ _ _ h' =>
          exact Or.inr ⟨_, .leftRead m k' _ l _ h', .rightRead n _ k _ r h⟩

/-! ### Exchanges -/

lemma leftWrites (p : Proc σ α) (q : Proc τ β) (l r : List Byte) :
    Steps Step p.writes ⟨p, q, l, r⟩ ⟨p.emit.2, q, l, r ++ p.emit.1⟩ := by
  induction p generalizing r with
  | write bs p ih =>
      rw [Proc.emit, ← List.append_assoc]
      exact (ih (r ++ bs)).head (.leftWrite bs p q l r)
  | ret a =>
      rw [Proc.emit, List.append_nil]
      exact .refl _
  | halt s =>
      rw [Proc.emit, List.append_nil]
      exact .refl _
  | read n k =>
      rw [Proc.emit, List.append_nil]
      exact .refl _

lemma rightReads (p : Proc σ α) (q : Proc τ β) (l r : List Byte) :
    Steps Step (q.reads r) ⟨p, q, l, r⟩ ⟨p, (q.consume r).1, l, (q.consume r).2⟩ := by
  induction q generalizing r with
  | read n k ih =>
      by_cases h : n ≤ r.length
      · rw [Proc.reads, Proc.consume, if_pos h, if_pos h]
        exact (ih _ _).head (.rightRead n p k l r h)
      · rw [Proc.reads, Proc.consume, if_neg h, if_neg h]
        exact .refl _
  | ret a => exact .refl _
  | halt s => exact .refl _
  | write bs q => exact .refl _

/-- The left side writes all it has, and the right side takes what it can. -/
lemma request {p : Proc σ α} {q q' : Proc τ β} {rest : List Byte} {m : ℕ}
    (hq : Proc.Takes q p.emit.1 m q' rest) :
    Steps Step (p.writes + m) ⟨p, q, [], []⟩ ⟨p.emit.2, q', [], rest⟩ := by
  have hwrites := leftWrites p q ([] : List Byte) ([] : List Byte)
  have hreads := rightReads p.emit.2 q ([] : List Byte) p.emit.1
  rw [hq.reads_eq, hq.consume_eq] at hreads
  exact hwrites.trans hreads

/-- **Request and answer.**  The left side writes and waits for `n` bytes; the right side takes
what was written and answers with `n` bytes. -/
lemma exchange {p : Proc σ α} {k : List Byte → Proc σ α} {q q' : Proc τ β} {n m : ℕ}
    {request answer : List Byte} (hp : p.emit = (request, .read n k))
    (hq : Proc.Takes q request m (.write answer q') []) (hanswer : answer.length = n) :
    Steps Step (p.writes + (m + 2)) ⟨p, q, [], []⟩ ⟨k answer, q', [], []⟩ := by
  have hwrites := leftWrites p q ([] : List Byte) ([] : List Byte)
  rw [hp, List.nil_append] at hwrites
  have hreads := rightReads (.read n k : Proc σ α) q ([] : List Byte) request
  rw [hq.reads_eq, hq.consume_eq] at hreads
  have hread := Step.leftRead n k q' answer [] hanswer.ge
  rw [List.take_of_length_le hanswer.le, List.drop_of_length_le hanswer.le] at hread
  exact hwrites.trans ((hreads.tail (.rightWrite answer _ q' [] [])).tail hread)

end Duplex

end Whuctf
