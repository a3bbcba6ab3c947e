import Whuctf.Client.Cipher
import Whuctf.Client.Routines

/-!
# The cipher routines compute the server's cipher

Slots 11 and 12 keep the block in `esi` and `ecx`, the sum in `eax`, the key pointer in `r9`
and the block pointer in `r8`.  One pass through a loop body is one round of the C loop
(`encryptBody_holds`, `decryptBody_holds`), although the code updates the sum between the two
half-rounds.  The loops have no counter: they stop when the sum reaches a constant.  The sums
of the first thirty-one passes are different from it (`encrypt_stops_iff`, `decrypt_stops_iff`),
so both routines return after exactly thirty-two passes, with the memory `myencrypt` and
`mydecrypt` leave (`encrypt_returns`, `decrypt_returns`).

Both routines have the same shape, an entry, a loop and an exit that stores the block, so the run is
proved once for any entry and body that go with a round of the C loop.  The two theorems at the end
instantiate it.
-/

namespace Whuctf.Client

open X86

/-! ## Registers and loop state -/

/-- The machine inside a cipher routine: the loop state `r` in the registers, the pointers
saved, and stack, memory and trace as on entry. -/
structure Holds (s₀ : State) (r : Rounds) (s : State) : Prop where
  sum : s.reg32 .rax = r.sum
  v0 : s.reg32 .rsi = r.v0
  v1 : s.reg32 .rcx = r.v1
  key : s.reg .r9 = s₀.reg .rsi
  block : s.reg .r8 = s₀.reg .rdi
  rsp : s.reg .rsp = s₀.reg .rsp
  mem : s.mem = s₀.mem
  trace : s.trace = s₀.trace

lemma Holds.goto {s₀ s : State} {r : Rounds} (h : Holds s₀ r s) (a : BitVec 64) :
    Holds s₀ r (s.goto a) :=
  ⟨h.sum, h.v0, h.v1, h.key, h.block, h.rsp, h.mem, h.trace⟩

/-- The operand `[r9+rdx*4]` is the key word the C code indexes. -/
lemma keyWord_ea (k : BitVec 64) (x : BitVec 32) :
    k + (x &&& 3#32).setWidth 64 * 4#64 + 0#64 =
      k + ((4 * (x &&& 3#32).toNat : ℕ) : BitVec 64) := by
  have hlt : (x &&& 3#32).toNat < 4 := by
    rw [BitVec.toNat_and]
    exact Nat.lt_of_le_of_lt Nat.and_le_right (by decide)
  generalize x &&& 3#32 = y at hlt
  have hmul : y.setWidth 64 * 4#64 = ((4 * y.toNat : ℕ) : BitVec 64) := by
    apply BitVec.eq_of_toNat_eq
    rw [BitVec.natCast_eq_ofNat]
    simp only [BitVec.toNat_mul, BitVec.toNat_setWidth, BitVec.toNat_ofNat]
    omega
  rw [hmul, BitVec.add_zero]

/-- The key word at the index a half-round masks out of `x`, as the code loads it. -/
lemma load_keyWord (m : Memory (BitVec 64)) (k : BitVec 64) (x : BitVec 32) :
    m.load32 (k + (x &&& 3#32).setWidth 64 * 4#64 + 0#64) =
      keyAt m k (x &&& 3#32).toNat := by
  rw [keyWord_ea, keyAt]

lemma sub_const_eq_add_delta (x : BitVec 32) : x - 0x61C88647#32 = x + delta := by
  rw [BitVec.sub_eq_add_neg]
  rfl

lemma add_const_eq_sub_delta (x : BitVec 32) : x + 0x61C88647#32 = x - delta := by
  rw [BitVec.sub_eq_add_neg]
  rfl

/-- One pass of the loop of slot 11 is one round of `encrypt`: the registers hold its loop state, and
the zero flag says whether its sum is that of the last round. -/
lemma encryptBody_holds {s₀ s : State} {r : Rounds} (h : Holds s₀ r s) :
    Holds s₀ (encryptRound (keyAt s₀.mem (s₀.reg .rsi)) r) (execOps encryptBody s) ∧
      (execOps encryptBody s).zf =
        ((encryptRound (keyAt s₀.mem (s₀.reg .rsi)) r).sum == 0xC6EF3720#32) := by
  have hkey := load_keyWord s₀.mem (s₀.reg .rsi)
  refine ⟨⟨?_, ?_, ?_, h.key, h.block, h.rsp, h.mem, h.trace⟩, ?_⟩
  all_goals
    simp -implicitDefEqProofs only [execOps, encryptBody, List.foldl_cons, List.foldl_nil,
      Op.exec, State.src, Alu.eval, State.ea, derefIndex, State.reg_setZf, State.reg32_setZf,
      State.zf_setZf, State.mem_setZf, State.mem_setReg32, State.reg_setReg32_self,
      State.reg32_setReg32_self, ne_eq, reduceCtorEq, not_false_eq_true,
      State.reg_setReg32_ne, State.reg32_setReg32_ne, h.sum, h.v0, h.v1, h.key, h.mem, hkey,
      sub_const_eq_add_delta]
  · rfl
  · rw [BitVec.add_comm (keyAt _ _ _) r.sum]
    rfl
  · rw [BitVec.add_comm (keyAt _ _ _) r.sum, BitVec.add_comm (keyAt _ _ _) (r.sum + delta)]
    rfl
  · rfl

/-- One pass of the loop of slot 12 is one round of `decrypt`, and the zero flag says whether its sum
has come down to zero. -/
lemma decryptBody_holds {s₀ s : State} {r : Rounds} (h : Holds s₀ r s) :
    Holds s₀ (decryptRound (keyAt s₀.mem (s₀.reg .rsi)) r) (execOps decryptBody s) ∧
      (execOps decryptBody s).zf =
        ((decryptRound (keyAt s₀.mem (s₀.reg .rsi)) r).sum == 0#32) := by
  have hkey := load_keyWord s₀.mem (s₀.reg .rsi)
  refine ⟨⟨?_, ?_, ?_, h.key, h.block, h.rsp, h.mem, h.trace⟩, ?_⟩
  all_goals
    simp -implicitDefEqProofs only [execOps, decryptBody, List.foldl_cons, List.foldl_nil,
      Op.exec, State.src, Alu.eval, State.ea, derefIndex, State.reg_setZf, State.reg32_setZf,
      State.zf_setZf, State.mem_setZf, State.mem_setReg32, State.reg_setReg32_self,
      State.reg32_setReg32_self, ne_eq, reduceCtorEq, not_false_eq_true,
      State.reg_setReg32_ne, State.reg32_setReg32_ne, h.sum, h.v0, h.v1, h.key, h.mem, hkey,
      add_const_eq_sub_delta, BitVec.and_self]
  · rfl
  · rw [BitVec.add_comm (keyAt _ _ _) r.sum, BitVec.add_comm (keyAt _ _ _) (r.sum - delta)]
    rfl
  · rw [BitVec.add_comm (keyAt _ _ _) r.sum]
    rfl
  · rfl

/-! ## The loops stop after thirty-two passes

`sum` depends only on the number of rounds, and the jump at the end of the loop tests it.  So the
thirty-two values of `sum` settle when the loop stops, for every block and key. -/

/-- Among the sums of the first thirty-two rounds only the last is `0xC6EF3720`. -/
lemma encrypt_stops_iff (key : ℕ → BitVec 32) (v : BitVec 32 × BitVec 32) {n : ℕ}
    (hn : n ≤ 31) :
    (((encryptRound key)^[n + 1] { v0 := v.1, v1 := v.2, sum := 0 }).sum == 0xC6EF3720#32) =
      decide (n = 31) := by
  have hsums : ∀ n < 32,
      (0#32 + BitVec.ofNat 32 (n + 1) * delta == 0xC6EF3720#32) = decide (n = 31) := by
    decide
  rw [encryptRound_iterate_sum]
  exact hsums n (by omega)

/-- Among the sums of the first thirty-two rounds only the last is zero. -/
lemma decrypt_stops_iff (key : ℕ → BitVec 32) (v : BitVec 32 × BitVec 32) {n : ℕ}
    (hn : n ≤ 31) :
    (((decryptRound key)^[n + 1] { v0 := v.1, v1 := v.2, sum := delta * 32#32 }).sum == 0#32) =
      decide (n = 31) := by
  have hsums : ∀ n < 32,
      (delta * 32#32 - BitVec.ofNat 32 (n + 1) * delta == 0#32) = decide (n = 31) := by
    decide
  rw [decryptRound_iterate_sum]
  exact hsums n (by omega)

/-! ## The routines -/

/-- The machine back at its caller: the return address popped, nothing printed, and `m` in
memory. -/
structure Returned (s s' : State) (m : Memory (BitVec 64)) : Prop where
  mem : s'.mem = m
  rip : s'.rip = load64 s.mem (s.reg .rsp)
  rsp : s'.reg .rsp = s.reg .rsp + 8#64
  trace : s'.trace = s.trace

/-- The lines of slot 11 before the loop load the block and clear the sum. -/
lemma encryptEntry_holds (s : State) :
    Holds s { v0 := (loadBlock s.mem (s.reg .rdi)).1, v1 := (loadBlock s.mem (s.reg .rdi)).2,
              sum := 0 } (execOps encryptEntry s) := by
  refine ⟨?_, ?_, ?_, rfl, rfl, rfl, rfl, rfl⟩
  · simp [execOps, encryptEntry, Op.exec, State.src, Alu.eval]
  · simp [execOps, encryptEntry, Op.exec, State.src, State.ea, deref, loadBlock]
  · simp [execOps, encryptEntry, Op.exec, State.src, State.ea, deref, loadBlock]

/-- The lines of slot 12 before the loop load the block and the last sum. -/
lemma decryptEntry_holds (s : State) :
    Holds s { v0 := (loadBlock s.mem (s.reg .rdi)).1, v1 := (loadBlock s.mem (s.reg .rdi)).2,
              sum := delta * 32#32 } (execOps decryptEntry s) := by
  refine ⟨?_, ?_, ?_, rfl, rfl, rfl, rfl, rfl⟩
  · have hsum : 0xC6EF3720#32 = delta * 32#32 := by decide
    simp [execOps, decryptEntry, Op.exec, State.src, ← hsum]
  · simp [execOps, decryptEntry, Op.exec, State.src, State.ea, deref, loadBlock]
  · simp [execOps, decryptEntry, Op.exec, State.src, State.ea, deref, loadBlock]

/-- The two stores after the loop leave the block of the loop state. -/
lemma cipherExit_mem {s₀ s : State} {r : Rounds} (h : Holds s₀ r s) :
    (execOps cipherExit s).mem = storeBlock s₀.mem (s₀.reg .rdi) (r.v0, r.v1) := by
  simp only [execOps, cipherExit, List.foldl_cons, List.foldl_nil, Op.exec, State.ea, deref]
  show ((s.mem.store32 (s.reg .r8 + 0#64) (s.reg32 .rsi)).store32 (s.reg .r8 + 4#64)
    (s.reg32 .rcx)) = _
  rw [h.mem, h.block, h.v0, h.v1, BitVec.add_zero, storeBlock, blockBytes, Memory.write_append]
  rfl

/-- A cipher routine: `entry` before its loop, `body` in it, and the same exit behind it. -/
def cipherCode (entry body : List Op) : Assembly :=
  ops entry ++ [.label .loop] ++ ops body ++ [.instr (.jnz .loop)] ++ ops cipherExit ++
    [.instr .ret]

/-! The text behind the entry, behind the label, behind the jump and behind the stores. -/

section Text

variable (entry body : List Op)

lemma cipherCode_drop_zero : (cipherCode entry body).drop 0 =
    ops entry ++ (cipherCode entry body).drop entry.length := by
  simp [cipherCode, ops]

lemma cipherCode_drop_body : (cipherCode entry body).drop (entry.length + 1) =
    ops body ++ (.instr (.jnz .loop) :: (ops cipherExit ++ [.instr .ret])) := by
  have hsplit : cipherCode entry body = (ops entry ++ [.label .loop]) ++
      (ops body ++ (.instr (.jnz .loop) :: (ops cipherExit ++ [.instr .ret]))) := by
    simp [cipherCode]
  rw [hsplit]
  exact List.drop_left' (by simp [ops])

lemma cipherCode_drop_exit : (cipherCode entry body).drop (entry.length + 1 + body.length + 1) =
    ops cipherExit ++ [.instr .ret] := by
  have hsplit : cipherCode entry body =
      ((ops entry ++ [.label .loop]) ++ (ops body ++ [.instr (.jnz .loop)])) ++
        (ops cipherExit ++ [.instr .ret]) := by
    simp [cipherCode]
  rw [hsplit]
  exact List.drop_left' (by simp [ops]; omega)

lemma cipherCode_ret :
    (cipherCode entry body)[entry.length + 1 + body.length + 1 + 2]? = some (.instr .ret) := by
  have hget := congrArg (·[2]?) (cipherCode_drop_exit entry body)
  simpa [ops, cipherExit] using hget

lemma cipherCode_loop : (cipherCode entry body)[entry.length]? = some (.label .loop) := by
  simp [cipherCode, ops]

lemma labelIndex_loop : labelIndex (cipherCode entry body) .loop = entry.length := by
  simp [cipherCode, labelIndex, ops, List.idxOf_append]

end Text

/-! The run of a routine whose body makes one `round` and whose zero flag is set after thirty-two
of them. -/

section Routine

variable {img : Image} {base : BitVec 64} {entry body : List Op}
  (P : Placed img base (cipherCode entry body)) (k : Kernel) {s : State} {r : Rounds}
  (round : Rounds → Rounds) (stop : Rounds → Bool)
  (hentry : Holds s r (execOps entry s))
  (hbody : ∀ q t, Holds s q t → Holds s (round q) (execOps body t) ∧
    (execOps body t).zf = stop (round q))
  (hstop : ∀ n ≤ 31, stop (round^[n + 1] r) = decide (n = 31))
  (hrip : s.rip = base)
include hrip

lemma cipherRoutine_enters :
    run img k entry.length s = some ((execOps entry s).goto (P.addr entry.length)) := by
  have hfirst := P.run_ops k entry (cipherCode_drop_zero entry body) (hrip.trans P.addr_zero.symm)
  rwa [Nat.zero_add] at hfirst

omit hrip in
include hbody hstop in
/-- A pass makes one round and leaves the flag that the next jump tests. -/
lemma cipherRoutine_pass (j : ℕ) (t : State) (hj : j ≤ 31) (ht : Holds s (round^[j] r) t) :
    Holds s (round^[j + 1] r) (execOps body t) ∧ (execOps body t).zf = decide (j = 31) := by
  have hpass := hbody _ t ht
  rwa [← Function.iterate_succ_apply' round, hstop j hj] at hpass

include P hentry hbody hstop

/-- Each of the thirty-two passes starts at the label, after as many rounds as passes. -/
lemma cipherRoutine_heads (j : ℕ) (hj : j ≤ 31) :
    ∃ t, run img k (entry.length + j * (body.length + 1)) s = some t ∧
      Holds s (round^[j] r) t ∧ t.rip = P.addr entry.length := by
  obtain ⟨t, hloop, hholds, htrip⟩ := P.run_doWhile_heads k body (labelIndex_loop entry body)
    (cipherCode_loop entry body) (cipherCode_drop_body entry body)
    (I := fun j => Holds s (round^[j] r)) (fun j u a h => h.goto a) (n := 31)
    (fun j t => cipherRoutine_pass round stop hbody hstop j t)
    (hentry.goto (P.addr entry.length)) rfl j hj
  exact ⟨t, run_trans (cipherRoutine_enters P k hrip) hloop, hholds, htrip⟩

/-- After the thirty-second pass the jump is not taken any more, so the machine is behind it with the
result in its registers. -/
lemma cipherRoutine_leaves :
    ∃ t, run img k (entry.length + 32 * (body.length + 1)) s = some t ∧
      Holds s (round^[32] r) t ∧ t.rip = P.addr (entry.length + 1 + body.length + 1) := by
  obtain ⟨t, hloop, hholds, htrip⟩ := P.run_doWhile k body (labelIndex_loop entry body)
    (cipherCode_loop entry body) (cipherCode_drop_body entry body)
    (I := fun j => Holds s (round^[j] r)) (fun j u a h => h.goto a) (n := 31)
    (fun j t => cipherRoutine_pass round stop hbody hstop j t)
    (hentry.goto (P.addr entry.length)) rfl
  exact ⟨t, run_trans (cipherRoutine_enters P k hrip) hloop, hholds, htrip⟩

/-- Behind the loop the routine stores the block and executes its `ret`: in memory the block alone has
changed, the return address is taken from the stack, and no function outside has been called. -/
lemma cipherRoutine_halts :
    ∃ s', run img k (entry.length + 32 * (body.length + 1) + 3) s = some s' ∧
      s'.mem = storeBlock s.mem (s.reg .rdi) ((round^[32] r).v0, (round^[32] r).v1) ∧
      s'.rip = load64 s'.mem (s.reg .rsp) ∧ s'.reg .rsp = s.reg .rsp + 8#64 ∧
      s'.trace = s.trace := by
  obtain ⟨t, hloop, hholds, htrip⟩ :=
    cipherRoutine_leaves P k round stop hentry hbody hstop hrip
  have hexit := P.run_ops k cipherExit (cipherCode_drop_exit entry body) htrip
  have hback := P.step_ret k (cipherCode_ret entry body)
    (s := (execOps cipherExit t).goto (P.addr (entry.length + 1 + body.length + 1 + 2))) rfl
  have hrsp : (execOps cipherExit t).reg .rsp = s.reg .rsp := hholds.rsp
  refine ⟨_, run_trans hloop (run_trans hexit (run_one hback)), ?_, ?_, ?_, hholds.trace⟩
  · rw [State.mem_popRet, State.mem_goto, cipherExit_mem hholds]
  · rw [State.rip_popRet, State.mem_popRet, State.reg_goto, hrsp]
  · rw [State.rsp_popRet, State.reg_goto, hrsp]

/-- It returns to its caller when the block does not cover the return address. -/
lemma cipherRoutine_returns (hret : Memory.Apart (s.reg .rdi) 8 (s.reg .rsp) 8) :
    ∃ s', run img k (entry.length + 32 * (body.length + 1) + 3) s = some s' ∧
      Returned s s' (storeBlock s.mem (s.reg .rdi) ((round^[32] r).v0, (round^[32] r).v1)) := by
  obtain ⟨s', hrun, hmem, hrip', hrsp, htrace⟩ :=
    cipherRoutine_halts P k round stop hentry hbody hstop hrip
  refine ⟨s', hrun, hmem, ?_, hrsp, htrace⟩
  rw [hrip', hmem]
  exact load64_congr (Memory.read_write_of_apart _ _ _ _ _ hret)

end Routine

/-- **Slot 11.**  The routine returns after exactly thirty-two passes, and memory is what
`myencrypt` leaves. -/
lemma encrypt_returns {img : Image} {base : BitVec 64} (P : Placed img base encryptCode)
    (k : Kernel) {s : State} (hret : Memory.Apart (s.reg .rdi) 8 (s.reg .rsp) 8)
    (hrip : s.rip = base) :
    ∃ s', run img k (6 + 32 * 28 + 3) s = some s' ∧
      Returned s s' (myencrypt s.mem (s.reg .rdi) s.mem (s.reg .rsi)) :=
  cipherRoutine_returns P k (encryptRound (keyAt s.mem (s.reg .rsi))) (·.sum == 0xC6EF3720#32)
    (encryptEntry_holds s) (fun _ _ h => encryptBody_holds h)
    (fun _ hn => encrypt_stops_iff _ _ hn) hrip hret

/-- **Slot 12.**  The routine returns after exactly thirty-two passes, and memory is what
`mydecrypt` leaves. -/
lemma decrypt_returns {img : Image} {base : BitVec 64} (P : Placed img base decryptCode)
    (k : Kernel) {s : State} (hret : Memory.Apart (s.reg .rdi) 8 (s.reg .rsp) 8)
    (hrip : s.rip = base) :
    ∃ s', run img k (6 + 32 * 28 + 3) s = some s' ∧
      Returned s s' (mydecrypt s.mem (s.reg .rdi) s.mem (s.reg .rsi)) :=
  cipherRoutine_returns P k (decryptRound (keyAt s.mem (s.reg .rsi))) (·.sum == 0#32)
    (decryptEntry_holds s) (fun _ _ h => decryptBody_holds h)
    (fun _ hn => decrypt_stops_iff _ _ hn) hrip hret

end Whuctf.Client
