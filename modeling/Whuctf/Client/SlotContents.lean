import Whuctf.Client.Messages

/-!
# What a slot holds

A slot is meant to hold the payload of the last `NEW` addressed to it and `ret` behind it:
`client_init` and `DEL` fill slots with `ret`, and no more than 255 bytes of a payload are stored over
it.  `NEW` itself does not fill.  A payload that replaces a longer one leaves the end of the longer one
behind its own.

So the contents of a slot are independent of its history exactly when every payload leaves nothing of
the one it replaces but `ret` (`slots_meet_iff`).

The statement is about runs from `client_init` on, over any stream.  Two accounts of a slot are kept
along the run: what it holds, byte by byte, and which payload it should show.  A message covers what it
replaces when the bytes the old payload had beyond the new one are `ret` themselves.
-/

namespace Whuctf.Client

open Memory

namespace Message

/-- What slot `i` holds for a message, when it held `old`: a `NEW` of the slot writes over the start, a
`DEL` fills it with `ret`, and any other message leaves it. -/
def store (i : Fin 500) (old : List Byte) : Message → List Byte
  | .new index _ payload _ =>
      if index.toInt = (i : ℕ) then payload ++ old.drop payload.length else old
  | .del index => if index.toInt = (i : ℕ) then List.replicate 256 0xC3#8 else old
  | _ => old

/-- The payload of the last `NEW` of slot `i` since its last `DEL`, given the one before. -/
def latest (i : Fin 500) (before : Option (List Byte)) : Message → Option (List Byte)
  | .new index _ payload _ => if index.toInt = (i : ℕ) then some payload else before
  | .del index => if index.toInt = (i : ℕ) then none else before
  | _ => before

end Message

/-- The payload of the last `NEW` of slot `i` since its last `DEL`. -/
def lastPayload (ms : List Message) (i : Fin 500) : Option (List Byte) :=
  ms.foldl (Message.latest i) none

lemma lastPayload_append (ms : List Message) (msg : Message) (i : Fin 500) :
    lastPayload (ms ++ [msg]) i = msg.latest i (lastPayload ms i) := by
  rw [lastPayload, List.foldl_append]
  rfl

/-- A payload and `ret` up to 256 bytes, or all `ret` when nothing has been loaded. -/
def slotContents : Option (List Byte) → List Byte
  | some payload => payload ++ List.replicate (256 - payload.length) 0xC3#8
  | none => List.replicate 256 0xC3#8

/-- Each slot holds what its last `NEW` since its last `DEL` says. -/
def HistoryIndependent (P : Placement) (ms : List Message) (m : ClientMemory) : Prop :=
  ∀ i, m.read (P.slot i) 256 = slotContents (lastPayload ms i)

/-- After the messages `ms`, the payload of a `NEW` leaves nothing of the one it replaces but `ret`: it
is at least as long, or the bytes of the old one behind it are all `ret`. -/
def Message.Covers (ms : List Message) : Message → Prop
  | .new index _ payload _ => ∀ i : Fin 500, index.toInt = (i : ℕ) →
      ∀ replaced, lastPayload ms i = some replaced → ∀ b ∈ replaced.drop payload.length, b = 0xC3#8
  | _ => True

/-! ## One message -/

namespace Placement

variable {P : Placement} {function : BitVec 64 → ClientMemory → ClientMemory}

/-- `client_init` fills every slot with `ret`, so that a slot nothing was written to returns when it is
called. -/
lemma read_clientInit (P : Placement) (m : ClientMemory) (i : Fin 500) :
    (P.clientInit m).read (P.slot i) 256 = List.replicate 256 0xC3#8 :=
  read_write_replicate m P.elements 0xC3#8 (by omega) (X86.offsetsDistinct _ (by decide))

/-- The slots after a pass that goes on: each is what `store` makes of the message and of what it held.
-/
lemma read_slot_of_outcome {m m' : ClientMemory} {msg : Message} (hexec : ¬msg.Executes)
    (h : msg.outcome P function m = .ok (m', true)) (i : Fin 500) :
    m'.read (P.slot i) 256 = msg.store i (m.read (P.slot i) 256) := by
  have haddressed : ∀ {index : BitVec 32} {j : Fin 500}, index.toInt = (j : ℕ) →
      (j = i ↔ index.toInt = (i : ℕ)) := by
    intro index j hj
    rw [Fin.ext_iff, hj, Nat.cast_inj]
  cases msg with
  | new index length payload hpayload =>
    rw [Message.outcome] at h
    split_ifs at h with hvalid hwhole
    obtain ⟨j, hj, hdata⟩ := P.exists_slot hvalid.1
    obtain ⟨rfl, -⟩ := Prod.mk.inj (Except.ok.inj h)
    rw [hdata, P.read_slot_write m j i (hvalid.2.fits hpayload), Message.store]
    exact if_congr (haddressed hj) rfl rfl
  | del index =>
    rw [Message.outcome] at h
    split_ifs at h with hvalid
    obtain ⟨j, hj, hdata⟩ := P.exists_slot hvalid
    obtain ⟨rfl, -⟩ := Prod.mk.inj (Except.ok.inj h)
    rw [hdata, P.read_slot_write m j i List.length_replicate.le, Message.store,
      List.drop_of_length_le (by rw [length_read, List.length_replicate]), List.append_nil]
    exact if_congr (haddressed hj) rfl rfl
  | exec index =>
    rw [Message.outcome, if_neg (show ¬IndexInRange index from hexec)] at h
    cases h
  | exit => cases h
  | truncated => cases h

/-- The slots after one more pass of a run that executes nothing: the message is stored into the slot
it names, and every other slot keeps what it had. -/
lemma read_slot_of_pass {m m' : ClientMemory} {s : Connection} (hexec : ¬(nextMessage s).Executes)
    (hpass : ((P.iteration function m).replay s).result = .ok (m', true)) (i : Fin 500) :
    m'.read (P.slot i) 256 = (nextMessage s).store i (m.read (P.slot i) 256) := by
  rw [iteration_result] at hpass
  rw [read_slot_of_outcome hexec hpass i, P.read_slot_sync m i (length_nextChunk_le 256 s)]

end Placement

/-- A payload over the contents of a slot makes the contents it should, when what it leaves of the
payload before is `ret`. -/
lemma overlay_eq_iff {held : Option (List Byte)} {payload : List Byte}
    (hheld : (slotContents held).length = 256) :
    payload ++ (slotContents held).drop payload.length = slotContents (some payload) ↔
      ∀ replaced, held = some replaced → ∀ b ∈ replaced.drop payload.length, b = 0xC3#8 := by
  rw [slotContents, List.append_cancel_left_eq, List.eq_replicate_iff, List.length_drop, hheld]
  cases held with
  | none =>
    refine iff_of_true ⟨rfl, fun b hb => ?_⟩ fun _ hnone => nomatch hnone
    exact List.eq_of_mem_replicate (List.mem_of_mem_drop hb)
  | some replaced =>
    rw [slotContents, List.drop_append]
    constructor
    · rintro ⟨-, hall⟩ _ hsame b hb
      obtain rfl := Option.some.inj hsame
      exact hall b (List.mem_append_left _ hb)
    · intro hall
      refine ⟨rfl, fun b hb => ?_⟩
      obtain hold | hfill := List.mem_append.mp hb
      · exact hall replaced rfl b hold
      · exact List.eq_of_mem_replicate (List.mem_of_mem_drop hfill)

/-- One message keeps the slots as they should be exactly when it covers what it replaces. -/
lemma historyIndependent_append {P : Placement} {ms : List Message} {msg : Message}
    {m m' : ClientMemory} (h : HistoryIndependent P ms m)
    (hstore : ∀ i, m'.read (P.slot i) 256 = msg.store i (m.read (P.slot i) 256)) :
    HistoryIndependent P (ms ++ [msg]) m' ↔ msg.Covers ms := by
  have hcontents : ∀ i, msg.store i (slotContents (lastPayload ms i)) =
      m'.read (P.slot i) 256 := fun i => by rw [hstore i, h i]
  have hlength : ∀ i, (slotContents (lastPayload ms i)).length = 256 := fun i => by
    rw [← h i, length_read]
  simp only [HistoryIndependent, lastPayload_append, ← hcontents]
  cases msg with
  | new index length payload hpayload =>
    simp only [Message.store, Message.latest, Message.Covers]
    refine forall_congr' fun i => ?_
    by_cases hi : index.toInt = (i : ℕ)
    · rw [if_pos hi, if_pos hi, overlay_eq_iff (hlength i)]
      exact ⟨fun hall _ => hall, fun hall => hall hi⟩
    · rw [if_neg hi, if_neg hi]
      exact iff_of_true rfl fun hsame => absurd hsame hi
  | del index =>
    refine iff_of_true (fun i => ?_) trivial
    by_cases hi : index.toInt = (i : ℕ)
    · simp only [Message.store, Message.latest, if_pos hi, slotContents]
    · simp only [Message.store, Message.latest, if_neg hi]
  | exec index => exact iff_of_true (fun _ => rfl) trivial
  | exit => exact iff_of_true (fun _ => rfl) trivial
  | truncated => exact iff_of_true (fun _ => rfl) trivial

/-! ## Runs -/

section Runs

variable {P : Placement} {function : BitVec 64 → ClientMemory → ClientMemory}
  {m₀ m : ClientMemory} {s₀ s : Connection} {ms : List Message}

open Placement

/-- The last pass of a run, with the slots before and after it. -/
lemma Placement.Run.last {msg : Message} (h : P.Run function m₀ s₀ (ms ++ [msg]) m s) :
    ∃ m₁ s₁, P.Run function m₀ s₀ ms m₁ s₁ ∧
      ∀ i, m.read (P.slot i) 256 = msg.store i (m₁.read (P.slot i) 256) := by
  generalize hall : ms ++ [msg] = all at h
  cases h with
  | start => simp at hall
  | pass hbefore hexec hpass =>
    obtain ⟨rfl, hlast⟩ := List.append_inj' hall rfl
    obtain rfl := List.singleton_inj.mp hlast
    exact ⟨_, _, hbefore, fun i => read_slot_of_pass hexec hpass i⟩

/-- What a slot holds after a run: the messages of the run, stored into it one after the other. -/
lemma Placement.Run.read_slot (h : P.Run function m₀ s₀ ms m s) (i : Fin 500) :
    m.read (P.slot i) 256 = ms.foldl (Message.store i) (m₀.read (P.slot i) 256) := by
  induction h with
  | start => rfl
  | pass _ hexec hpass ih =>
    rw [List.foldl_append, ← ih]
    exact read_slot_of_pass hexec hpass i

/-- **The contents of the slots.**  On a stream, every state reached has in each slot the payload of
the last `NEW` since the last `DEL` and `ret` behind it, exactly when every message leaves nothing of
the payload it replaces but `ret`. -/
theorem slots_meet_iff (P : Placement) (function : BitVec 64 → ClientMemory → ClientMemory)
    (m₀ : ClientMemory) (s₀ : Connection) :
    (∀ ms m s, P.Run function (P.clientInit m₀) s₀ ms m s → HistoryIndependent P ms m) ↔
      ∀ ms msg m s, P.Run function (P.clientInit m₀) s₀ (ms ++ [msg]) m s → msg.Covers ms := by
  constructor
  · intro hmeets ms msg m s hrun
    obtain ⟨m₁, s₁, hbefore, hstore⟩ := hrun.last
    exact (historyIndependent_append (hmeets ms m₁ s₁ hbefore) hstore).mp
      (hmeets _ m s hrun)
  · intro hcovers ms m s hrun
    induction hrun with
    | start => exact fun i => P.read_clientInit m₀ i
    | @pass ms m m' s hrun hexec hpass ih =>
      exact (historyIndependent_append ih fun i => read_slot_of_pass hexec hpass i).mpr
        (hcovers ms _ m' _ (.pass hrun hexec hpass))

/-- A `NEW` of slot 0 with one byte after one with two leaves the second byte. -/
theorem slots_meet_iff_shorter : ∃ ms m s,
    samplePlacement.Run (fun _ m => m) (samplePlacement.clientInit fun _ => 0#8)
      (newChunks zeros 0#32 2#32 [1#8, 2#8] ++ newChunks zeros 0#32 1#32 [3#8]) ms m s ∧
    ¬HistoryIndependent samplePlacement ms m := by
  have hzeros : zeros.length = 256 := List.length_replicate
  have hfirst : samplePlacement.Run (fun _ m => m) (samplePlacement.clientInit fun _ => 0#8)
      (newChunks zeros 0#32 2#32 [1#8, 2#8] ++ newChunks zeros 0#32 1#32 [3#8])
      ([] ++ [.new 0#32 2#32 [1#8, 2#8] (by decide)]) _
      (newChunks zeros 0#32 1#32 [3#8] ++ []) :=
    Run.new .start hzeros (by decide) (by decide) rfl
  have hsecond := Run.new hfirst hzeros (by decide) (by decide) rfl
  refine ⟨_, _, _, hsecond, fun hmeets => ?_⟩
  have hheld := hsecond.read_slot 0
  rw [hmeets 0, samplePlacement.read_clientInit] at hheld
  have hsecondByte := congrArg (·[1]?) hheld
  revert hsecondByte
  decide

end Runs

end Whuctf.Client
