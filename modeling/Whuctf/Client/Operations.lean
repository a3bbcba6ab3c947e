import Whuctf.Client.Element
import Whuctf.Library.Process
import Whuctf.Library.Word32

/-!
# The check-in client

`client.c`: five hundred slots of 256 bytes, filled with `ret` at the start, and a loop that
takes one operation at a time.  Every read is checked against the length asked for, and a short
one ends the program (`client_ragequit`), with whatever the read had already stored.

Executing a slot runs code the server chose.  It is a parameter `Exec`: what it makes of
`global_data`, given the slots and a world of everything else it may look at or change.

The state is threaded through the processes, so that `halt` can return it: what the program was when it
quit is compared in the results about short and bad messages.  The second argument that a pass returns
says whether the loop goes on.
-/

namespace Whuctf.Client

open Proc (send receive halt)

/-- What the reads of one connection return, in order; an empty list is the end of the stream. -/
abbrev Connection := List (List Byte)

/-- What the next `read` of `n` bytes returns: at most as many, and nothing at the end. -/
def nextChunk (n : ℕ) (script : Connection) : List Byte := (script.headD []).take n

lemma length_nextChunk_le (n : ℕ) (script : Connection) : (nextChunk n script).length ≤ n :=
  List.length_take_le n _

/-- The slots, as the array `elements` has them: five hundred elements, and no index beyond them. -/
abbrev Elements := Vector Element 500

/-- There are slots: the numerals of their indices rest on this one proof. -/
instance neZero_slots : NeZero 500 := ⟨by decide⟩

/-- The globals of the client, and the world the executed code acts on besides them. -/
structure ClientState (W : Type) where
  globalData : Element
  elements : Elements
  world : W

/-- The effect of the code in a slot, given the world, all slots, the index of the one that is called
and the element.  It may change the element and the world, and it returns. -/
abbrev Exec (W : Type) := W → Elements → Fin 500 → Element → Element × W

variable {W : Type}

/-- `client_init`: all slots filled with `ret`, before the first message. -/
def initialElements : Elements := Vector.replicate 500 Element.filler

/-- `client_sync_global_recv`: a whole element is read, or the client quits with what came of it
stored. -/
def syncGlobalRecv (c : ClientState W) : Proc (ClientState W) (ClientState W) := do
  let bs ← receive 256
  let c := { c with globalData := c.globalData.overwrite bs }
  if bs.length = 256 then pure c else halt c

/-- `client_sync_global_send`: the element goes back, all 256 bytes of it. -/
def syncGlobalSend (c : ClientState W) : Proc (ClientState W) Unit := send c.globalData.toList

/-- An `int` is read into a local variable, in the byte order of the machine, or the client quits. -/
def readInt (c : ClientState W) : Proc (ClientState W) (BitVec 32) := do
  let bs ← receive 4
  match bs with
  | [b₀, b₁, b₂, b₃] => pure (Word32.ofBytes b₃ b₂ b₁ b₀)
  | _ => halt c

/-- `store_index` is read and compared with the bounds of the array.  The comparison is signed, so a
negative index is refused as well. -/
def readIndex (c : ClientState W) : Proc (ClientState W) (Fin 500) := do
  let i ← readInt c
  if h : 0 ≤ i.toInt ∧ i.toInt < 500 then
    pure ⟨i.toNat, by
      have hnat := BitVec.toInt_eq_toNat_cond i
      split at hnat <;> omega⟩
  else halt c

/-- A slot is replaced, the others and the rest of the state stay. -/
def ClientState.setElement (c : ClientState W) (i : Fin 500) (e : Element) : ClientState W :=
  { c with elements := c.elements.set i e }

/-- `client_operation_new`: index and length are read and checked, and the payload is stored at the
start of the slot.  The length is compared as a signed `int` with zero and as a `size_t` with 256, so
it is one of `0..255`; what a short payload brought stays in the slot when the client quits. -/
def clientOperationNew (c : ClientState W) : Proc (ClientState W) (ClientState W) := do
  let i ← readIndex c
  let codeLength ← readInt c
  if codeLength.toInt < 0 ∨ 256 ≤ codeLength.toInt then halt c
  else do
    let bs ← receive codeLength.toNat
    let c := c.setElement i ((c.elements.get i).overwrite bs)
    if bs.length = codeLength.toNat then pure c else halt c

/-- `client_operation_del`: the slot is filled with `ret` again. -/
def clientOperationDel (c : ClientState W) : Proc (ClientState W) (ClientState W) := do
  let i ← readIndex c
  pure (c.setElement i Element.filler)

/-- `client_operation_execute`: the slot is called as a function without arguments. -/
def clientOperationExecute (exec : Exec W) (c : ClientState W) :
    Proc (ClientState W) (ClientState W) := do
  let i ← readIndex c
  let r := exec c.world c.elements i c.globalData
  pure { c with globalData := r.1, world := r.2 }

/-- The `switch` of the main loop: the new state, and whether to go on.  Every opcode but the first
three ends the loop. -/
def clientOperation (exec : Exec W) (c : ClientState W) (operation : Byte) :
    Proc (ClientState W) (ClientState W × Bool) :=
  match operation with
  | 0#8 => do
      let c ← clientOperationNew c
      pure (c, true)
  | 1#8 => do
      let c ← clientOperationDel c
      pure (c, true)
  | 2#8 => do
      let c ← clientOperationExecute exec c
      pure (c, true)
  | _ => pure (c, false)

/-- One pass of the main loop: the element comes, then the opcode and what belongs to it, and the
element goes back, behind the last pass too. -/
def iteration (exec : Exec W) (c : ClientState W) : Proc (ClientState W) (ClientState W × Bool) := do
  let c ← syncGlobalRecv c
  let bs ← receive 1
  match bs with
  | [operation] =>
      let r ← clientOperation exec c operation
      syncGlobalSend r.1
      pure r
  | _ => halt c

/-- The main loop, for at most `fuel` passes; `none` when they were not enough. -/
def mainLoop (exec : Exec W) :
    ℕ → ClientState W → Proc (ClientState W) (Option (ClientState W))
  | 0, _ => pure none
  | fuel + 1, c => do
      let r ← iteration exec c
      if r.2 then mainLoop exec fuel r.1 else pure (some r.1)

end Whuctf.Client
