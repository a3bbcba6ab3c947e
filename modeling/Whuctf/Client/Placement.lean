import Whuctf.Client.Operations
import Whuctf.Library.X86

/-!
# The check-in client in its address space

`Operations` keeps the slots in a vector, where an index out of range cannot be written.  Here they
are what they are in `client.c`: 128000 bytes behind the pointer `elements`, reached by C arithmetic
on the signed 32-bit `store_index`, with `code_length` compared once as an `int` and once against the
unsigned `sizeof`, and passed to `read` as a `size_t`.  Nothing in these definitions keeps a store
inside the array.

While the client stays inside, the two models agree: `Holds` relates a memory to a state of
`Operations`, and the loop over memory simulates the loop over states (`mainLoop_simulates`).

The simulation goes operation by operation.  Each is a short program of reads and writes, so that two
of them agree when they read and write the same and end in a memory and a state that are related; an
index that is refused ends both before anything is stored.
-/

namespace Whuctf.Client

open Memory
open Proc (send receive halt)

/-- The client's memory, with addresses of 64 bits, so that arithmetic on them wraps around. -/
abbrev ClientMemory := Memory (BitVec 64)

/-- Where `global_data` and the mapping behind `elements` are.  A mapping is apart from the data of
the program. -/
structure Placement where
  globalData : BitVec 64
  elements : BitVec 64
  apart : Apart globalData 256 elements (256 * 500)

namespace Placement

variable (P : Placement)

/-! ## The operations

The functions of `client.c` again, over memory.  A pointer into the array is a 64-bit address, computed
from the index as the compiler does it, by extending the sign and multiplying by the size of a slot. -/

/-- `elements[store_index].Data`: the index is sign-extended to the width of an address, so a negative
one would lie in front of the array. -/
def data (storeIndex : BitVec 32) : BitVec 64 :=
  P.elements + storeIndex.signExtend 64 * 256#64

/-- `client_init`: the array behind `elements`, all 500 slots of it, filled with `ret`. -/
def clientInit (m : ClientMemory) : ClientMemory :=
  m.write P.elements (List.replicate (256 * 500) 0xC3#8)

/-- `client_sync_global_recv`: one `read` of 256 bytes into `global_data`.  A short one ends the
program, with what has arrived stored. -/
def syncGlobalRecv (m : ClientMemory) : Proc ClientMemory ClientMemory := do
  let bs ← receive 256
  let m := m.write P.globalData bs
  if bs.length = 256 then pure m else halt m

/-- `client_sync_global_send`: the 256 bytes of `global_data`, in one `write`. -/
def syncGlobalSend (m : ClientMemory) : Proc ClientMemory Unit := send (m.read P.globalData 256)

/-- Read an `int` into a local variable, or quit when fewer than four bytes come. -/
def readInt (m : ClientMemory) : Proc ClientMemory (BitVec 32) := do
  let bs ← receive 4
  match bs with
  | [b₀, b₁, b₂, b₃] => pure (Word32.ofBytes b₃ b₂ b₁ b₀)
  | _ => halt m

/-- Read `store_index` and check it: below 0 or from 500 on, the program quits.  The comparison is
signed. -/
def readIndex (m : ClientMemory) : Proc ClientMemory (BitVec 32) := do
  let storeIndex ← readInt m
  if storeIndex.slt 0#32 ∨ (500#32).sle storeIndex then halt m else pure storeIndex

/-- `client_operation_new`: the index, the length, and a `read` of that many bytes to the start of the
slot.  The length is checked twice, and the count that `read` returns once. -/
def clientOperationNew (m : ClientMemory) : Proc ClientMemory ClientMemory := do
  let storeIndex ← readIndex m
  let codeLength ← readInt m
  if codeLength.slt 0#32 ∨ 256#64 ≤ codeLength.signExtend 64 then halt m
  else do
    let bs ← receive (codeLength.signExtend 64).toNat
    let m := m.write (P.data storeIndex) bs
    if BitVec.ofNat 64 bs.length = codeLength.signExtend 64 then pure m else halt m

/-- `client_operation_del`: the slot filled with `ret`, all 256 bytes of it. -/
def clientOperationDel (m : ClientMemory) : Proc ClientMemory ClientMemory := do
  let storeIndex ← readIndex m
  pure (m.write (P.data storeIndex) (List.replicate 256 0xC3#8))

/-- `client_operation_execute`.  What the code at an address makes of the memory is a parameter. -/
def clientOperationExecute (function : BitVec 64 → ClientMemory → ClientMemory)
    (m : ClientMemory) : Proc ClientMemory ClientMemory := do
  let storeIndex ← readIndex m
  pure (function (P.data storeIndex) m)

/-- The `switch` of the main loop: the memory, and whether to go on. -/
def clientOperation (function : BitVec 64 → ClientMemory → ClientMemory) (m : ClientMemory)
    (operation : Byte) : Proc ClientMemory (ClientMemory × Bool) :=
  match operation with
  | 0#8 => do
      let m ← P.clientOperationNew m
      pure (m, true)
  | 1#8 => do
      let m ← P.clientOperationDel m
      pure (m, true)
  | 2#8 => do
      let m ← P.clientOperationExecute function m
      pure (m, true)
  | _ => pure (m, false)

/-- One pass of the main loop: the element is received, one operation is read and carried out, and the
element is sent back. -/
def iteration (function : BitVec 64 → ClientMemory → ClientMemory) (m : ClientMemory) :
    Proc ClientMemory (ClientMemory × Bool) := do
  let m ← P.syncGlobalRecv m
  let bs ← receive 1
  match bs with
  | [operation] =>
      let r ← P.clientOperation function m operation
      P.syncGlobalSend r.1
      pure r
  | _ => halt m

/-- The main loop, for at most `fuel` passes: the memory, and whether it would go on. -/
def mainLoop (function : BitVec 64 → ClientMemory → ClientMemory) :
    ℕ → ClientMemory → Proc ClientMemory (ClientMemory × Bool)
  | 0, m => pure (m, true)
  | fuel + 1, m => do
      let r ← P.iteration function m
      if r.2 then mainLoop function fuel r.1 else pure (r.1, false)

/-! ## The checks

What the machine comparisons mean as comparisons of integers.  The length is compared once as an `int`
and twice as a `size_t`, and the comparisons agree because the first of them has excluded the negative
values. -/

lemma index_rejected_iff (storeIndex : BitVec 32) :
    (storeIndex.slt 0#32 ∨ (500#32).sle storeIndex) ↔
      ¬(0 ≤ storeIndex.toInt ∧ storeIndex.toInt < 500) := by
  have h0 : (0#32).toInt = 0 := rfl
  have h500 : (500#32).toInt = 500 := rfl
  rw [BitVec.slt_iff_toInt_lt, BitVec.sle_iff_toInt_le, h0, h500]
  omega

lemma toInt_eq_toNat {x : BitVec 32} (h : 0 ≤ x.toInt) : x.toInt = x.toNat := by
  have hcond := BitVec.toInt_eq_toNat_cond x
  split at hcond <;> omega

/-- An `int` that is not negative keeps its value as a `size_t`. -/
lemma toNat_signExtend {x : BitVec 32} (h : 0 ≤ x.toInt) :
    (x.signExtend 64).toNat = x.toNat := by
  have hmsb : x.msb = false := by
    rw [BitVec.msb_eq_toInt]
    simpa using h
  rw [BitVec.signExtend_eq_setWidth_of_msb_false hmsb, BitVec.toNat_setWidth,
    Nat.mod_eq_of_lt (by omega)]

/-- The count `read` returns, compared with the length asked for: the `int` is extended to the width of
the count, and one that is not negative keeps its value. -/
lemma length_eq_iff {codeLength : BitVec 32} (h : 0 ≤ codeLength.toInt) {bs : List Byte}
    (hlen : bs.length ≤ codeLength.toNat) :
    BitVec.ofNat 64 bs.length = codeLength.signExtend 64 ↔ bs.length = codeLength.toNat := by
  have hlt := codeLength.isLt
  rw [← BitVec.toNat_inj, toNat_signExtend h, BitVec.toNat_ofNat, Nat.mod_eq_of_lt (by omega)]

lemma length_rejected_iff (codeLength : BitVec 32) :
    (codeLength.slt 0#32 ∨ 256#64 ≤ codeLength.signExtend 64) ↔
      codeLength.toInt < 0 ∨ 256 ≤ codeLength.toInt := by
  have h0 : (0#32).toInt = 0 := rfl
  rw [BitVec.slt_iff_toInt_lt, BitVec.le_def, h0]
  by_cases hneg : codeLength.toInt < 0
  · simp [hneg]
  · have hint := toInt_eq_toNat (not_lt.mp hneg)
    have hvalue := toNat_signExtend (not_lt.mp hneg)
    have h256 : (256#64).toNat = 256 := rfl
    omega

/-- A valid index reaches the slot at its own offset, since an index that is not negative keeps its
value in the arithmetic on pointers. -/
lemma data_eq {storeIndex : BitVec 32} (h : 0 ≤ storeIndex.toInt) :
    P.data storeIndex = P.elements + ((256 * storeIndex.toInt.toNat : ℕ) : BitVec 64) := by
  have hint := toInt_eq_toNat h
  rw [data]
  congr 1
  apply BitVec.eq_of_toNat_eq
  rw [BitVec.natCast_eq_ofNat, BitVec.toNat_mul, BitVec.toNat_ofNat, BitVec.toNat_ofNat,
    toNat_signExtend h]
  omega

/-! ## The memory of a state

A memory `Holds` a state when the element and every slot are where the placement says.  The regions do
not meet, so a store into one of them leaves the reads of the others alone. -/

/-- The start of slot `i`, 256 bytes behind that of the slot before it. -/
def slot (i : Fin 500) : BitVec 64 := P.elements + ((256 * i : ℕ) : BitVec 64)

lemma data_eq_slot {storeIndex : BitVec 32} {i : Fin 500} (h : storeIndex.toInt = (i : ℕ)) :
    P.data storeIndex = P.slot i := by
  rw [P.data_eq (by omega), slot, h, Int.toNat_natCast]

lemma apart_slot (i : Fin 500) : Apart P.globalData 256 (P.slot i) 256 :=
  P.apart.inside (by omega)

lemma slots_apart {i j : Fin 500} (h : i ≠ j) : Apart (P.slot i) 256 (P.slot j) 256 := by
  have hne : (i : ℕ) ≠ j := Fin.val_ne_of_ne h
  exact (X86.offsetsDistinct P.elements (n := 256 * 500) (by decide)).apart (by omega) (by omega)
    (by omega)

/-- A slot after bytes are stored at the start of one. -/
lemma read_slot_write (m : ClientMemory) (i j : Fin 500) {bs : List Byte} (hlen : bs.length ≤ 256) :
    (m.write (P.slot i) bs).read (P.slot j) 256 =
      if i = j then bs ++ (m.read (P.slot j) 256).drop bs.length else m.read (P.slot j) 256 := by
  split_ifs with hij
  · subst hij
    exact read_write m (P.slot i) hlen (X86.offsetsDistinct _ (by decide))
  · exact read_write_of_apart _ _ _ _ _ ((P.slots_apart hij).mono hlen le_rfl)

/-- A slot after bytes are stored at the start of `global_data`. -/
lemma read_slot_sync (m : ClientMemory) (i : Fin 500) {bs : List Byte} (hlen : bs.length ≤ 256) :
    (m.write P.globalData bs).read (P.slot i) 256 = m.read (P.slot i) 256 :=
  read_write_of_apart _ _ _ _ _ ((P.apart_slot i).mono hlen le_rfl)

variable {W : Type}

/-- The memory holds the globals of a state: its element in `global_data`, and each of its slots in the
array; nothing is said of other addresses. -/
structure Holds (m : ClientMemory) (c : ClientState W) : Prop where
  globalData : m.read P.globalData 256 = c.globalData.toList
  element : ∀ i, m.read (P.slot i) 256 = (c.elements.get i).toList

variable {P} {m : ClientMemory} {c : ClientState W}

/-- Bytes stored at the start of `global_data` overwrite the start of the element, and no slot. -/
lemma Holds.sync (h : P.Holds m c) {bs : List Byte} (hlen : bs.length ≤ 256) :
    P.Holds (m.write P.globalData bs) { c with globalData := c.globalData.overwrite bs } := by
  constructor
  · rw [read_write m P.globalData hlen (X86.offsetsDistinct _ (by decide)), h.globalData,
      Element.toList_overwrite _ hlen]
  · intro i
    rw [P.read_slot_sync m i hlen, h.element i]

/-- Bytes stored at the start of a slot overwrite that of its element, and leave the other slots and
`global_data` alone. -/
lemma Holds.store (h : P.Holds m c) (i : Fin 500) {bs : List Byte} (hlen : bs.length ≤ 256) :
    P.Holds (m.write (P.slot i) bs) (c.setElement i ((c.elements.get i).overwrite bs)) := by
  constructor
  · rw [read_write_of_apart _ _ _ _ _ ((P.apart_slot i).symm.mono hlen le_rfl), h.globalData]
    rfl
  · intro j
    rw [P.read_slot_write m i j hlen, h.element j]
    split_ifs with hij
    · subst hij
      change _ = ((c.elements.set i ((c.elements.get i).overwrite bs))[(i : ℕ)]).toList
      rw [Vector.getElem_set_self, Element.toList_overwrite _ hlen]
    · have hne : (i : ℕ) ≠ j := Fin.val_ne_of_ne hij
      change _ = ((c.elements.set i ((c.elements.get i).overwrite bs))[(j : ℕ)]).toList
      rw [Vector.getElem_set_ne _ _ hne]
      rfl

/-! ## The two models agree

One lemma for each operation, in the order of the source.  The executed code is the one thing that is
assumed to agree (`Executes`): what it does to the memory is what `exec` does to the state. -/

lemma readInt_simulates (h : P.Holds m c) :
    (readInt m).Simulates P.Holds Eq (Client.readInt c) := by
  refine .read fun bs _ => ?_
  match bs with
  | [_, _, _, _] => exact .ret rfl
  | [] | [_] | [_, _] | [_, _, _] | _ :: _ :: _ :: _ :: _ :: _ => exact .halt h

lemma readIndex_simulates (h : P.Holds m c) :
    (readIndex m).Simulates P.Holds (fun storeIndex i => P.data storeIndex = P.slot i)
      (Client.readIndex c) := by
  refine (readInt_simulates h).bind ?_
  rintro storeIndex _ rfl
  by_cases hvalid : 0 ≤ storeIndex.toInt ∧ storeIndex.toInt < 500
  · rw [if_neg ((index_rejected_iff storeIndex).not.mpr (not_not.mpr hvalid)), dif_pos hvalid]
    exact .ret (P.data_eq_slot (toInt_eq_toNat hvalid.1))
  · rw [if_pos ((index_rejected_iff storeIndex).mpr hvalid), dif_neg hvalid]
    exact .halt h

lemma syncGlobalRecv_simulates (h : P.Holds m c) :
    (P.syncGlobalRecv m).Simulates P.Holds P.Holds (Client.syncGlobalRecv c) := by
  refine .read fun bs hlen => ?_
  rw [Proc.ret_bind, Proc.ret_bind]
  split
  · exact .ret (h.sync hlen)
  · exact .halt (h.sync hlen)

lemma clientOperationNew_simulates (h : P.Holds m c) :
    (P.clientOperationNew m).Simulates P.Holds P.Holds (Client.clientOperationNew c) := by
  refine (readIndex_simulates h).bind fun storeIndex i hslot => ?_
  refine (readInt_simulates h).bind ?_
  rintro codeLength _ rfl
  by_cases hlength : codeLength.toInt < 0 ∨ 256 ≤ codeLength.toInt
  · rw [if_pos ((length_rejected_iff codeLength).mpr hlength), if_pos hlength]
    exact .halt h
  · rw [if_neg ((length_rejected_iff codeLength).not.mpr hlength), if_neg hlength, hslot]
    rw [toNat_signExtend (by omega)]
    refine .read fun bs hlen => ?_
    rw [Proc.ret_bind, Proc.ret_bind]
    have hge : 0 ≤ codeLength.toInt := by omega
    have hint := toInt_eq_toNat hge
    simp only [length_eq_iff hge hlen]
    split
    · exact .ret (h.store i (by omega))
    · exact .halt (h.store i (by omega))

lemma clientOperationDel_simulates (h : P.Holds m c) :
    (P.clientOperationDel m).Simulates P.Holds P.Holds (Client.clientOperationDel c) := by
  refine (readIndex_simulates h).bind fun storeIndex i hslot => .ret ?_
  have hlen : Element.filler.toList.length ≤ 256 := by simp
  have hstore := h.store i hlen
  rwa [Element.overwrite_toList, Element.filler, Vector.toList_replicate, ← hslot] at hstore

section Exec

variable {function : BitVec 64 → ClientMemory → ClientMemory} {exec : Exec W}

/-- The code at the slots does to the memory what `exec` does to the state it holds. -/
def Executes (P : Placement) (function : BitVec 64 → ClientMemory → ClientMemory)
    (exec : Exec W) : Prop :=
  ∀ m (c : ClientState W) i, P.Holds m c → P.Holds (function (P.slot i) m)
    { c with globalData := (exec c.world c.elements i c.globalData).1,
             world := (exec c.world c.elements i c.globalData).2 }

/-- Any other operation ends the loop, in both models and with nothing changed. -/
lemma clientOperation_else {operation : Byte} (hnew : operation ≠ 0#8) (hdel : operation ≠ 1#8)
    (hexecute : operation ≠ 2#8) :
    P.clientOperation function m operation = .ret (m, false) ∧
      Client.clientOperation exec c operation = .ret (c, false) := by
  constructor
  · unfold clientOperation
    split
    · exact absurd rfl hnew
    · exact absurd rfl hdel
    · exact absurd rfl hexecute
    · rfl
  · unfold Client.clientOperation
    split
    · exact absurd rfl hnew
    · exact absurd rfl hdel
    · exact absurd rfl hexecute
    · rfl

lemma clientOperation_simulates (hexec : P.Executes function exec) (h : P.Holds m c)
    (operation : Byte) :
    (P.clientOperation function m operation).Simulates P.Holds
      (fun r r' => P.Holds r.1 r'.1 ∧ r.2 = r'.2) (Client.clientOperation exec c operation) := by
  by_cases hnew : operation = 0#8
  · subst hnew
    exact (clientOperationNew_simulates h).bind fun _ _ h' => .ret ⟨h', rfl⟩
  by_cases hdel : operation = 1#8
  · subst hdel
    exact (clientOperationDel_simulates h).bind fun _ _ h' => .ret ⟨h', rfl⟩
  by_cases hexecute : operation = 2#8
  · subst hexecute
    refine Proc.Simulates.bind (R := P.Holds) ?_ fun _ _ h' => .ret ⟨h', rfl⟩
    refine (readIndex_simulates h).bind fun storeIndex i hslot => .ret ?_
    rw [hslot]
    exact hexec m c i h
  · obtain ⟨hmem, hstate⟩ := clientOperation_else (P := P) (m := m) (c := c) hnew hdel hexecute
    rw [hmem, hstate]
    exact .ret ⟨h, rfl⟩

lemma iteration_simulates (hexec : P.Executes function exec) (h : P.Holds m c) :
    (P.iteration function m).Simulates P.Holds (fun r r' => P.Holds r.1 r'.1 ∧ r.2 = r'.2)
      (Client.iteration exec c) := by
  refine (syncGlobalRecv_simulates h).bind fun m' c' h' => .read fun bs _ => ?_
  match bs with
  | [operation] =>
    refine (clientOperation_simulates hexec h' operation).bind fun r r' hr => ?_
    rw [syncGlobalSend, hr.1.globalData]
    exact .write _ (.ret hr)
  | [] | _ :: _ :: _ => exact .halt h'

/-- **The array is never left.**  The loop over memory reads and writes what the loop over the vector
of slots does, and ends in a memory of its state. -/
lemma mainLoop_simulates (hexec : P.Executes function exec) (h : P.Holds m c) (fuel : ℕ) :
    (P.mainLoop function fuel m).Simulates P.Holds
      (fun r o => if r.2 then o = none else ∃ c' : ClientState W, o = some c' ∧ P.Holds r.1 c')
      (Client.mainLoop exec fuel c) := by
  induction fuel generalizing m c with
  | zero => exact .ret rfl
  | succ fuel ih =>
    refine (iteration_simulates hexec h).bind fun r r' hr => ?_
    rw [hr.2]
    split
    · exact ih hr.1
    · exact .ret ⟨r'.1, rfl, hr.1⟩

/-- Whatever the peer sends, and however it is cut, the client in its address space answers what the
client of `Operations` answers, and one that halts leaves the slots of the other in its memory. -/
theorem mainLoop_replay (hexec : P.Executes function exec) (h : P.Holds m c) (fuel : ℕ)
    (script : List (List Byte)) :
    ((P.mainLoop function fuel m).replay script).written =
        ((Client.mainLoop exec fuel c).replay script).written ∧
      ∀ m', ((P.mainLoop function fuel m).replay script).result = .error m' →
        ∃ c', ((Client.mainLoop exec fuel c).replay script).result = .error c' ∧ P.Holds m' c' := by
  obtain ⟨hwritten, _, hends⟩ := (mainLoop_simulates hexec h fuel).replay script
  refine ⟨hwritten, fun m' hm' => ?_⟩
  rw [hm'] at hends
  match hc : ((Client.mainLoop exec fuel c).replay script).result with
  | .error c' =>
    rw [hc] at hends
    exact ⟨c', rfl, hends⟩
  | .ok o =>
    rw [hc] at hends
    exact hends.elim

end Exec

end Placement

end Whuctf.Client
