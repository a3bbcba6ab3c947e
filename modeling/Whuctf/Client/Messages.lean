import Whuctf.Client.Placement

/-!
# The client against an arbitrary peer

A peer may send anything, cut in any way.  `nextMessage` reads a message off the stream by its format
alone, with whatever index, length and payload it finds there; `Message.Bad` says what is wrong with
one.  `Message.outcome` is what a pass of the loop makes of a message (`iteration_result`), with the
machine comparisons and the address arithmetic of `client.c` on one side and ranges of integers on the
other.

A run (`Run`) is a sequence of passes none of which executes a slot.  It changes bytes of
`global_data` and of the slots its messages address, and no others; a bad message ends it
(`arbitrary_peer_confined`).

Two facts carry the proofs.  A message that passes the checks has an index of one of the 500 slots and
a payload that fits it, so a store lands where the message says; and a message that does not pass has
the program quit before anything outside `global_data` and that slot is written.
-/

namespace Whuctf.Client

open Memory

/-! ## Messages

A message is read off the stream by its format, before anything is checked.  The three operations keep
their fields as they came; any other opcode leaves the loop, and a stream that ends inside the fields
is `truncated`. -/

/-- A message, with the values its fields have on the stream.  A payload has as many of the bytes its
length announces as came. -/
inductive Message
  | new (index length : BitVec 32) (payload : List Byte) (h : payload.length ≤ length.toNat)
  | del (index : BitVec 32)
  | exec (index : BitVec 32)
  | exit
  | truncated
  deriving DecidableEq

/-- An `int` field, when all four bytes of it are there; they are in the order of the machine, the
lowest first. -/
def intField : List Byte → Option (BitVec 32)
  | [b₀, b₁, b₂, b₃] => some (Word32.ofBytes b₃ b₂ b₁ b₀)
  | _ => none

/-- A message after its opcode: which fields follow depends on the opcode, and a field that is cut
short makes the message `truncated`. -/
def messageBody (operation : Byte) (script : Connection) : Message :=
  match operation with
  | 0#8 =>
      match intField (nextChunk 4 script), intField (nextChunk 4 script.tail) with
      | some index, some length =>
          .new index length (nextChunk length.toNat script.tail.tail) (length_nextChunk_le _ _)
      | _, _ => .truncated
  | 1#8 => ((intField (nextChunk 4 script)).map .del).getD .truncated
  | 2#8 => ((intField (nextChunk 4 script)).map .exec).getD .truncated
  | _ => .exit

/-- The next message of a stream: the element, the opcode, and what the opcode announces.  The element
is skipped here, since it changes `global_data` whatever the message is. -/
def nextMessage (script : Connection) : Message :=
  if (nextChunk 256 script).length < 256 then .truncated
  else
    match nextChunk 1 script.tail with
    | [operation] => messageBody operation script.tail.tail
    | _ => .truncated

/-- The index of a slot, as a signed integer: what the two comparisons of the client let through. -/
def IndexInRange (index : BitVec 32) : Prop := 0 ≤ index.toInt ∧ index.toInt < 500

/-- The length of a payload, as a signed integer; a slot has one byte more. -/
def LengthInRange (length : BitVec 32) : Prop := 0 ≤ length.toInt ∧ length.toInt < 256

instance (index : BitVec 32) : Decidable (IndexInRange index) := instDecidableAnd

instance (length : BitVec 32) : Decidable (LengthInRange length) := instDecidableAnd

/-- A payload of an announced length fits in its slot, also when fewer bytes arrive than were
announced. -/
lemma LengthInRange.fits {length : BitVec 32} (h : LengthInRange length) {payload : List Byte}
    (hp : payload.length ≤ length.toNat) : payload.length ≤ 256 := by
  have hint := Placement.toInt_eq_toNat h.1
  rw [LengthInRange] at h
  omega

namespace Message

/-- An index outside `0..499`, a length outside `0..255`, or a field cut short.  On these the client
quits, instead of going on or leaving its loop. -/
def Bad : Message → Prop
  | .new index length payload _ =>
      ¬IndexInRange index ∨ ¬LengthInRange length ∨ payload.length < length.toNat
  | .del index | .exec index => ¬IndexInRange index
  | .exit => False
  | .truncated => True

/-- A message that has code executed: an `EXEC` with the index of a slot. -/
def Executes : Message → Prop
  | .exec index => IndexInRange index
  | _ => False

/-- The message is a `NEW` or `DEL` of slot `i`; a `NEW` whose length is refused has no slot. -/
def Addresses (i : Fin 500) : Message → Prop
  | .new index length _ _ => index.toInt = (i : ℕ) ∧ LengthInRange length
  | .del index => index.toInt = (i : ℕ)
  | _ => False

/-- The message is a `NEW` of slot `i` whose payload is cut short. -/
def CutShort (i : Fin 500) : Message → Prop
  | .new index length payload _ =>
      index.toInt = (i : ℕ) ∧ LengthInRange length ∧ payload.length < length.toNat
  | _ => False

/-- What a pass of the loop makes of a message: the memory and whether to go on, or the memory the
program quits with. -/
def outcome (P : Placement) (function : BitVec 64 → ClientMemory → ClientMemory)
    (m : ClientMemory) : Message → Except ClientMemory (ClientMemory × Bool)
  | .new index length payload _ =>
      if IndexInRange index ∧ LengthInRange length then
        if payload.length = length.toNat then .ok (m.write (P.data index) payload, true)
        else .error (m.write (P.data index) payload)
      else .error m
  | .del index =>
      if IndexInRange index then .ok (m.write (P.data index) (List.replicate 256 0xC3#8), true)
      else .error m
  | .exec index => if IndexInRange index then .ok (function (P.data index) m, true) else .error m
  | .exit => .ok (m, false)
  | .truncated => .error m

end Message

/-! ## One pass -/

namespace Placement

variable (P : Placement) (function : BitVec 64 → ClientMemory → ClientMemory)

/-- A read goes on with the next chunk of the script, cut to the length that was asked for. -/
lemma replay_receive_bind {α : Type} (n : ℕ) (f : List Byte → Proc ClientMemory α)
    (script : Connection) :
    ((Proc.receive n).bind f).replay script = (f (nextChunk n script)).replay script.tail := rfl

/-- The lengths the check lets pass are those from 0 to 255. -/
lemma lengthInRange_iff_kept (length : BitVec 32) :
    LengthInRange length ↔ ¬(length.slt 0#32 ∨ 256#64 ≤ length.signExtend 64) := by
  rw [length_rejected_iff, LengthInRange]
  omega

lemma replay_readInt (m : ClientMemory) (script : Connection) :
    (readInt m).replay script =
      ⟨[], ((intField (nextChunk 4 script)).map Except.ok).getD (.error m), script.tail⟩ := by
  rw [readInt, Proc.monad_bind_eq, replay_receive_bind]
  generalize nextChunk 4 script = bs
  match bs with
  | [_, _, _, _] => rfl
  | [] | [_] | [_, _] | [_, _, _] | _ :: _ :: _ :: _ :: _ :: _ => rfl

lemma result_readIndex (m : ClientMemory) (script : Connection) :
    ((readIndex m).replay script).result =
      match intField (nextChunk 4 script) with
      | some index => if IndexInRange index then .ok index else .error m
      | none => .error m := by
  rw [readIndex, Proc.monad_bind_eq, Proc.replay_bind_result, replay_readInt]
  cases intField (nextChunk 4 script) with
  | none => rfl
  | some index =>
    by_cases hvalid : IndexInRange index
    · have hkept := (index_rejected_iff index).not.mpr (not_not.mpr hvalid)
      simp [hvalid, hkept, Proc.replay]
    · have hquit := (index_rejected_iff index).mpr hvalid
      simp [hvalid, hquit, Proc.replay]

lemma rest_readIndex (m : ClientMemory) (script : Connection) :
    ((readIndex m).replay script).rest = script.tail := by
  rw [readIndex, Proc.monad_bind_eq, Proc.replay_bind, replay_readInt]
  cases intField (nextChunk 4 script) with
  | none => rfl
  | some index =>
    simp only [Option.map_some, Option.getD_some]
    split <;> rfl

lemma result_andGoOn (p : Proc ClientMemory ClientMemory) (script : Connection) :
    ((p.bind fun m => .ret (m, true)).replay script).result =
      (p.replay script).result.map fun m => (m, true) := by
  rw [Proc.replay_bind_result]
  cases (p.replay script).result <;> rfl

lemma result_clientOperationNew (m : ClientMemory) (script : Connection) :
    ((P.clientOperationNew m).replay script).result.map (fun m => (m, true)) =
      (messageBody 0#8 script).outcome P function m := by
  rw [clientOperationNew, Proc.monad_bind_eq, Proc.replay_bind_result, result_readIndex,
    rest_readIndex, messageBody]
  cases hindex : intField (nextChunk 4 script) with
  | none => rfl
  | some index =>
    by_cases hi : IndexInRange index
    · simp only [if_pos hi]
      rw [Proc.monad_bind_eq, Proc.replay_bind_result, replay_readInt]
      cases hlength : intField (nextChunk 4 script.tail) with
      | none => rfl
      | some length =>
        simp only [Option.map_some, Option.getD_some]
        by_cases hl : LengthInRange length
        · have hkept := (lengthInRange_iff_kept length).mp hl
          have hnat := toNat_signExtend hl.1
          rw [if_neg hkept, hnat, Message.outcome, if_pos ⟨hi, hl⟩]
          rw [Proc.monad_bind_eq, replay_receive_bind]
          simp only [length_eq_iff hl.1 (length_nextChunk_le _ _)]
          split <;> rfl
        · have hquit := not_not.mp ((lengthInRange_iff_kept length).not.mp hl)
          rw [if_pos hquit, Message.outcome, if_neg (not_and_of_not_right _ hl)]
          rfl
    · simp only [if_neg hi]
      cases intField (nextChunk 4 script.tail) with
      | none => rfl
      | some length =>
        rw [Message.outcome, if_neg (not_and_of_not_left _ hi)]
        rfl

/-- An operation on the slot it reads the index of: the index is four bytes in one chunk, and a bad one
ends the program with the memory as it was. -/
lemma result_atIndex (m : ClientMemory) (script : Connection) (f : BitVec 32 → ClientMemory) :
    (((readIndex m).bind fun index => .ret (f index)).replay script).result.map
        (fun m => (m, true)) =
      match intField (nextChunk 4 script) with
      | some index => if IndexInRange index then .ok (f index, true) else .error m
      | none => .error m := by
  rw [Proc.replay_bind_result, result_readIndex]
  cases intField (nextChunk 4 script) with
  | none => rfl
  | some index =>
    by_cases hi : IndexInRange index
    · simp only [if_pos hi]
      rfl
    · simp only [if_neg hi]
      rfl

lemma result_clientOperationDel (m : ClientMemory) (script : Connection) :
    ((P.clientOperationDel m).replay script).result.map (fun m => (m, true)) =
      (messageBody 1#8 script).outcome P function m := by
  refine (result_atIndex m script _).trans ?_
  rw [messageBody]
  cases intField (nextChunk 4 script) <;> rfl

lemma result_clientOperationExecute (m : ClientMemory) (script : Connection) :
    ((P.clientOperationExecute function m).replay script).result.map (fun m => (m, true)) =
      (messageBody 2#8 script).outcome P function m := by
  refine (result_atIndex m script _).trans ?_
  rw [messageBody]
  cases intField (nextChunk 4 script) <;> rfl

lemma result_clientOperation (m : ClientMemory) (operation : Byte) (script : Connection) :
    ((P.clientOperation function m operation).replay script).result =
      (messageBody operation script).outcome P function m := by
  unfold clientOperation
  split
  · exact (result_andGoOn _ script).trans (P.result_clientOperationNew function m script)
  · exact (result_andGoOn _ script).trans (P.result_clientOperationDel function m script)
  · exact (result_andGoOn _ script).trans (P.result_clientOperationExecute function m script)
  · rename_i hnew hdel hexec
    unfold messageBody
    split
    · exact absurd rfl hnew
    · exact absurd rfl hdel
    · exact absurd rfl hexec
    · rfl

/-- **One pass.**  The element that comes first goes to `global_data`, as much of it as there is, and
the message has its outcome. -/
lemma iteration_result (m : ClientMemory) (script : Connection) :
    ((P.iteration function m).replay script).result =
      (nextMessage script).outcome P function (m.write P.globalData (nextChunk 256 script)) := by
  set m' := m.write P.globalData (nextChunk 256 script) with hm'
  have hsync : (P.syncGlobalRecv m).replay script =
      if (nextChunk 256 script).length = 256 then ⟨[], .ok m', script.tail⟩
      else ⟨[], .error m', script.tail⟩ := by
    rw [syncGlobalRecv, Proc.monad_bind_eq, replay_receive_bind]
    split <;> rfl
  have hlen := length_nextChunk_le 256 script
  rw [iteration, Proc.monad_bind_eq, Proc.replay_bind_result, hsync, nextMessage]
  by_cases hfull : (nextChunk 256 script).length = 256
  · rw [if_pos hfull, if_neg (by omega)]
    show (Proc.replay ((Proc.receive 1).bind _) script.tail).result = _
    rw [replay_receive_bind]
    rcases nextChunk 1 script.tail with _ | ⟨operation, _ | ⟨_, _⟩⟩
    · rfl
    · show (Proc.replay ((P.clientOperation function m' operation).bind _) _).result = _
      rw [Proc.replay_bind_result, result_clientOperation]
      cases (messageBody operation script.tail.tail).outcome P function m' <;> rfl
    · rfl
  · rw [if_neg hfull, if_pos (by omega)]
    rfl

/-! ## Frames

The three regions are those of the client's placement: the element, the array, and one slot of it.
Whatever a message does, it does within the first and, when it addresses one, within a slot. -/

/-- The addresses of `global_data`. -/
def globalRegion : Set (BitVec 64) := region P.globalData 256

/-- The addresses of the array. -/
def array : Set (BitVec 64) := region P.elements (256 * 500)

/-- The addresses of slot `i`. -/
def slotRegion (i : Fin 500) : Set (BitVec 64) := region (P.slot i) 256

lemma notMem_globalRegion {a : BitVec 64} (ha : a ∈ P.array) : a ∉ P.globalRegion := by
  rintro ⟨i, hi, hglobal⟩
  obtain ⟨j, hj, harray⟩ := ha
  exact P.apart i hi j hj (hglobal.trans harray.symm)

lemma slotRegion_subset (i : Fin 500) : P.slotRegion i ⊆ P.array := region_inside (by omega)

/-- The memory a pass ends in, whether the loop goes on from it or the program quits with it. -/
def endMemory : Except ClientMemory (ClientMemory × Bool) → ClientMemory
  | .ok r => r.1
  | .error m => m

lemma endMemory_ok (m : ClientMemory) (again : Bool) : endMemory (.ok (m, again)) = m := rfl

variable {P function} {m : ClientMemory} {msg : Message}

/-- An index in range is that of a slot, and the pointer arithmetic of the client then gives the start
of that slot. -/
lemma exists_slot (P : Placement) {index : BitVec 32} (h : IndexInRange index) :
    ∃ i : Fin 500, index.toInt = (i : ℕ) ∧ P.data index = P.slot i := by
  obtain ⟨hge, hlt⟩ := h
  have hvalue : index.toInt = ((⟨index.toInt.toNat, by omega⟩ : Fin 500) : ℕ) := by
    show index.toInt = (index.toInt.toNat : ℤ)
    omega
  exact ⟨_, hvalue, P.data_eq_slot hvalue⟩

/-- A message that executes nothing changes the slot it addresses, or nothing. -/
lemma outcome_frame (hexec : ¬msg.Executes) {a : BitVec 64}
    (ha : ∀ i, msg.Addresses i → a ∉ P.slotRegion i) :
    endMemory (msg.outcome P function m) a = m a := by
  cases msg with
  | new index length payload hpayload =>
    rw [Message.outcome]
    by_cases hvalid : IndexInRange index ∧ LengthInRange length
    · obtain ⟨i, hi, hdata⟩ := P.exists_slot hvalid.1
      have hout : m.write (P.data index) payload a = m a := by
        rw [hdata]
        exact write_apply_of_notMem _ _ _ (hvalid.2.fits hpayload) (ha i ⟨hi, hvalid.2⟩)
      rw [if_pos hvalid]
      split <;> exact hout
    · rw [if_neg hvalid]
      rfl
  | del index =>
    rw [Message.outcome]
    by_cases hvalid : IndexInRange index
    · obtain ⟨i, hi, hdata⟩ := P.exists_slot hvalid
      have hout : m.write (P.slot i) (List.replicate 256 0xC3#8) a = m a :=
        write_apply_of_notMem m _ _ List.length_replicate.le (ha i hi)
      rw [if_pos hvalid, hdata, endMemory_ok, hout]
    · rw [if_neg hvalid]
      rfl
  | exec index =>
    rw [Message.outcome, if_neg (show ¬IndexInRange index from hexec)]
    rfl
  | exit => rfl
  | truncated => rfl

/-- A bad message has the program quit, so its outcome is the memory the program ends with. -/
lemma outcome_bad (hbad : msg.Bad) :
    msg.outcome P function m = .error (endMemory (msg.outcome P function m)) := by
  cases msg with
  | new index length payload hpayload =>
    rw [Message.outcome]
    by_cases hvalid : IndexInRange index ∧ LengthInRange length
    · obtain hi | hl | hshort := hbad
      · exact absurd hvalid.1 hi
      · exact absurd hvalid.2 hl
      · rw [if_pos hvalid, if_neg (by omega)]
        rfl
    · rw [if_neg hvalid]
      rfl
  | del index =>
    rw [Message.outcome, if_neg (show ¬IndexInRange index from hbad)]
    rfl
  | exec index =>
    rw [Message.outcome, if_neg (show ¬IndexInRange index from hbad)]
    rfl
  | exit => exact absurd hbad id
  | truncated => rfl

end Placement

/-- A bad message addresses a slot only when its payload is cut short. -/
lemma Message.Bad.cutShort {msg : Message} (hbad : msg.Bad) {i : Fin 500} (h : msg.Addresses i) :
    msg.CutShort i := by
  cases msg with
  | new index length payload hpayload =>
    obtain ⟨hi, hl⟩ := h
    have hindex : IndexInRange index := by
      rw [IndexInRange]
      omega
    obtain hi' | hl' | hshort := hbad
    · exact absurd hindex hi'
    · exact absurd hl hl'
    · exact ⟨hi, hl, hshort⟩
  | del index =>
    refine absurd ?_ hbad
    have hi : index.toInt = (i : ℕ) := h
    rw [IndexInRange]
    omega
  | exec index => exact h.elim
  | exit => exact h.elim
  | truncated => exact h.elim

/-! ## Runs

A run leaves out the messages that execute a slot, because the code in a slot may write anywhere.  What
it proves holds of every stretch between two executions. -/

namespace Placement

variable (P : Placement) (function : BitVec 64 → ClientMemory → ClientMemory)

/-- Passes of the loop that execute nothing, from the memory `m₀` and the stream `s₀`: the messages
they take, the memory they leave and the rest of the stream. -/
inductive Run (m₀ : ClientMemory) (s₀ : Connection) :
    List Message → ClientMemory → Connection → Prop
  | start : Run m₀ s₀ [] m₀ s₀
  | pass {ms : List Message} {m m' : ClientMemory} {s : Connection} (h : Run m₀ s₀ ms m s)
      (hexec : ¬(nextMessage s).Executes)
      (hpass : ((P.iteration function m).replay s).result = .ok (m', true)) :
      Run m₀ s₀ (ms ++ [nextMessage s]) m' ((P.iteration function m).replay s).rest

variable {P function} {m₀ m : ClientMemory} {s₀ s : Connection} {ms : List Message}

/-- The loop gets to the end of a run: behind as many passes as the run has messages it has the memory
of the run and the rest of the stream. -/
lemma Run.mainLoop (h : P.Run function m₀ s₀ ms m s) (fuel : ℕ) :
    ((P.mainLoop function (ms.length + fuel) m₀).replay s₀).result =
      ((P.mainLoop function fuel m).replay s).result := by
  induction h generalizing fuel with
  | start => rw [List.length_nil, Nat.zero_add]
  | pass _ _ hpass ih =>
    have hnext := ih (fuel + 1)
    rw [List.length_append, List.length_singleton, Nat.add_assoc, Nat.add_comm 1 fuel, hnext,
      Placement.mainLoop, Proc.monad_bind_eq, Proc.replay_bind_result, hpass]
    rfl

lemma iteration_frame (hexec : ¬(nextMessage s).Executes) {a : BitVec 64}
    (hglobal : a ∉ P.globalRegion) (ha : ∀ i, (nextMessage s).Addresses i → a ∉ P.slotRegion i) :
    endMemory ((P.iteration function m).replay s).result a = m a := by
  rw [iteration_result, outcome_frame hexec ha]
  exact write_apply_of_notMem _ _ _ (length_nextChunk_le 256 s) hglobal

/-- What a run does to an address outside `global_data`: nothing, unless one of its messages addresses
the slot the address is in. -/
lemma Run.frame (h : P.Run function m₀ s₀ ms m s) {a : BitVec 64} (hglobal : a ∉ P.globalRegion)
    (ha : ∀ msg ∈ ms, ∀ i, msg.Addresses i → a ∉ P.slotRegion i) : m a = m₀ a := by
  induction h with
  | start => rfl
  | @pass _ mid _ rest _ hexec hpass ih =>
    have hlast : endMemory ((P.iteration function mid).replay rest).result a = mid a :=
      iteration_frame hexec hglobal (ha _ (List.mem_append_right _ (List.mem_singleton_self _)))
    rw [hpass] at hlast
    exact hlast.trans (ih fun msg hmsg => ha msg (List.mem_append_left _ hmsg))

/-! ### Complete messages -/

/-- The chunks of a `NEW`, each read whole: the element, the opcode, the index, the length and the
payload. -/
def newChunks (g : List Byte) (index length : BitVec 32) (payload : List Byte) : Connection :=
  [g, [0#8], Word32.bytesLE index, Word32.bytesLE length, payload]

lemma intField_bytesLE (v : BitVec 32) : intField (Word32.bytesLE v) = some v := by
  rw [Word32.bytesLE, intField, Word32.ofBytes_byte]

section NewChunks

variable {g payload : List Byte} {index length : BitVec 32}

lemma nextMessage_newChunks (hg : g.length = 256) (hp : payload.length ≤ length.toNat)
    (s : Connection) :
    nextMessage (newChunks g index length payload ++ s) = .new index length payload hp := by
  have hwhole : ∀ v : BitVec 32, (Word32.bytesLE v).take 4 = Word32.bytesLE v :=
    fun v => List.take_of_length_le (Word32.length_bytesLE v).le
  have hall : payload.take length.toNat = payload := List.take_of_length_le hp
  simp [nextMessage, messageBody, nextChunk, newChunks, hg, hwhole, intField_bytesLE, hall]

/-- The rest of the stream after a complete `NEW`: the pass takes the five chunks of the message and no
more. -/
lemma rest_newChunks (m : ClientMemory) (hg : g.length = 256) (hi : IndexInRange index)
    (hl : LengthInRange length) (hp : payload.length = length.toNat) (s : Connection) :
    ((P.iteration function m).replay (newChunks g index length payload ++ s)).rest = s := by
  have hindex := (index_rejected_iff index).not.mpr (not_not.mpr hi)
  have hlength := (lengthInRange_iff_kept length).mp hl
  have hcount := (length_eq_iff hl.1 hp.le).mpr hp
  have hall : payload.take length.toNat = payload := List.take_of_length_le hp.le
  have hglobal : g.take 256 = g := List.take_of_length_le hg.le
  simp [newChunks, Placement.iteration, syncGlobalRecv, clientOperation, clientOperationNew,
    readIndex, readInt, syncGlobalSend, Proc.receive, Proc.send, Proc.replay, Word32.bytesLE, hg,
    hglobal, hindex, hlength, toNat_signExtend hl.1, hall, hcount]

/-- A run goes on over a complete `NEW` with an index and a length in range: the payload is in the
slot, and the element in `global_data`. -/
lemma Run.new (h : P.Run function m₀ s₀ ms m (newChunks g index length payload ++ s))
    (hg : g.length = 256) (hi : IndexInRange index) (hl : LengthInRange length)
    (hp : payload.length = length.toNat) :
    P.Run function m₀ s₀ (ms ++ [.new index length payload hp.le])
      ((m.write P.globalData g).write (P.data index) payload) s := by
  have hmsg : nextMessage (newChunks g index length payload ++ s) =
      .new index length payload hp.le := nextMessage_newChunks hg hp.le s
  have hresult := P.iteration_result function m (newChunks g index length payload ++ s)
  have hchunk : nextChunk 256 (newChunks g index length payload ++ s) = g :=
    List.take_of_length_le hg.le
  rw [hmsg, hchunk, Message.outcome, if_pos ⟨hi, hl⟩, if_pos hp] at hresult
  have hrest : ((P.iteration function m).replay (newChunks g index length payload ++ s)).rest = s :=
    rest_newChunks m hg hi hl hp s
  have hexec : ¬(nextMessage (newChunks g index length payload ++ s)).Executes := by
    rw [hmsg]
    exact id
  have hnext := Run.pass h hexec hresult
  rwa [hmsg, hrest] at hnext

end NewChunks

end Placement

open Placement

/-- **An arbitrary peer.**  After any number of messages on any stream, executing nothing, only bytes
of `global_data` and of the slots addressed have changed, all of these within the array.  The next
message changes at most `global_data` and its own slot.  When it is bad the loop ends, with nothing
changed outside `global_data` but the slot of a payload that is cut short. -/
theorem arbitrary_peer_confined (P : Placement)
    (function : BitVec 64 → ClientMemory → ClientMemory) (m₀ : ClientMemory) (s₀ : Connection)
    {ms : List Message} {m : ClientMemory} {s : Connection}
    (hrun : P.Run function m₀ s₀ ms m s) :
    (∀ a ∈ P.array, a ∉ P.globalRegion) ∧
    (∀ a ∉ P.globalRegion, (∀ msg ∈ ms, ∀ i, msg.Addresses i → a ∉ P.slotRegion i) →
      m a = m₀ a) ∧
    (∀ a ∉ P.globalRegion, a ∉ P.array → m a = m₀ a) ∧
    (¬(nextMessage s).Executes →
      ∃ r, ((P.iteration function m).replay s).result = r ∧
        (∀ a ∉ P.globalRegion, (∀ i, (nextMessage s).Addresses i → a ∉ P.slotRegion i) →
          endMemory r a = m a) ∧
        (∀ a ∉ P.globalRegion, a ∉ P.array → endMemory r a = m a) ∧
        ((nextMessage s).Bad →
          (∀ fuel > ms.length,
            ((P.mainLoop function fuel m₀).replay s₀).result = .error (endMemory r)) ∧
          ∀ a ∉ P.globalRegion, (∀ i, (nextMessage s).CutShort i → a ∉ P.slotRegion i) →
            endMemory r a = m a)) := by
  have hslots : ∀ {a : BitVec 64}, a ∉ P.array → ∀ i, a ∉ P.slotRegion i :=
    fun ha i hi => ha (P.slotRegion_subset i hi)
  refine ⟨fun _ ha => P.notMem_globalRegion ha, fun a hglobal ha => hrun.frame hglobal ha,
    fun a hglobal ha => hrun.frame hglobal fun _ _ i _ => hslots ha i, fun hexec => ?_⟩
  refine ⟨_, rfl, fun a hglobal ha => iteration_frame hexec hglobal ha,
    fun a hglobal ha => iteration_frame hexec hglobal fun i _ => hslots ha i, fun hbad => ⟨?_, ?_⟩⟩
  · intro fuel hfuel
    obtain ⟨more, rfl⟩ : ∃ more, fuel = ms.length + (more + 1) :=
      ⟨fuel - ms.length - 1, by omega⟩
    have hends : ((P.iteration function m).replay s).result =
        .error (endMemory ((P.iteration function m).replay s).result) := by
      rw [iteration_result]
      exact outcome_bad hbad
    rw [hrun.mainLoop, Placement.mainLoop, Proc.monad_bind_eq, Proc.replay_bind_result, hends]
    rfl
  · intro a hglobal ha
    exact iteration_frame hexec hglobal fun i hi => ha i (hbad.cutShort hi)

/-- A client with its array at `0x100000` and its data at `0x400000`. -/
def samplePlacement : Placement where
  globalData := 0x400000#64
  elements := 0x100000#64
  apart := (X86.apart_of_le (by decide) (by decide)).symm

/-- An element of zeros, which the messages of the examples carry. -/
def zeros : List Byte := List.replicate 256 0#8

/-- A `NEW` of slot 3 and then one of slot 500: the first is stored in its slot, and at the second the
program ends. -/
theorem arbitrary_peer_confined_index : ∃ m',
    (∀ fuel > 1, ((samplePlacement.mainLoop (fun _ m => m) fuel fun _ => 0#8).replay
      (newChunks zeros 3#32 2#32 [1#8, 2#8] ++ newChunks zeros 500#32 1#32 [7#8])).result =
        .error m') ∧
    ∀ a ∉ samplePlacement.globalRegion, a ∉ samplePlacement.slotRegion 3 → m' a = 0#8 := by
  have hzeros : zeros.length = 256 := List.length_replicate
  have hnew : nextMessage (newChunks zeros 500#32 1#32 [7#8] ++ []) =
      .new 500#32 1#32 [7#8] (by decide) := nextMessage_newChunks hzeros (by decide) []
  rw [List.append_nil] at hnew
  obtain ⟨-, hbefore, -, hnext⟩ := arbitrary_peer_confined samplePlacement (fun _ m => m)
    (fun _ => 0#8) _ (Run.new .start hzeros (by decide) (by decide) rfl :
      samplePlacement.Run (fun _ m => m) (fun _ => 0#8)
        (newChunks zeros 3#32 2#32 [1#8, 2#8] ++ newChunks zeros 500#32 1#32 [7#8])
        ([] ++ [.new 3#32 2#32 [1#8, 2#8] (by decide)]) _
        (newChunks zeros 500#32 1#32 [7#8]))
  rw [hnew] at hnext
  obtain ⟨r, -, -, -, hbad⟩ := hnext id
  obtain ⟨hends, hafter⟩ := hbad (Or.inl (by decide))
  refine ⟨_, hends, fun a hglobal hslot => ?_⟩
  rw [hafter a hglobal fun i hi => absurd hi.2.2 (by decide), hbefore a hglobal]
  intro msg hmsg i hi
  obtain rfl := List.mem_singleton.mp hmsg
  have hthree : i = 3 := Fin.ext (by
    have hvalue : ((3#32).toInt : ℤ) = (i : ℕ) := hi.1
    have h3 : (3#32).toInt = 3 := rfl
    show (i : ℕ) = 3
    omega)
  rwa [hthree]

end Whuctf.Client
