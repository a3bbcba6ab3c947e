import Whuctf.Library.Word32

/-!
# A fragment of the x86-64 instruction set

The general registers, the zero and direction flags, memory, the instruction pointer and the
trace of system calls, with the instructions hand-written routines need: moves, 32-bit
arithmetic, shifts by a constant, comparisons, the string instructions under `rep`, jumps,
`call`, `ret` and `syscall`.  A 32-bit write clears the upper half of its register, loads and
stores are little-endian, and effective addresses wrap at 64 bits.  The carry, sign and
overflow flags are left out, since no instruction of the fragment reads them.

An `Op` only computes; it leaves the instruction pointer alone.  An `Instr` is an `Op` or a
transfer of control.  Assembly text is a list of `Line`s, labels and instructions, and
`Placed img base prog` says that the memory image `img` holds the assembled lines of `prog`
from `base` on: this is all that is asked of an assembler.

Execution is `step`, and `run` for a number of steps.  Proofs about routines use `run_ops` for
a stretch of `Op`s, `run_doWhile` for a loop that ends in `jnz`, `step_eq` for the transfers of
control, and `run_trans` to chain them.  `Along` says what holds in every state on the way, with a
rule beside each of these.
-/

namespace Whuctf.X86

/-! ## State

Registers are a function, so that writing one is an update of it, and the other fields are flags,
memory, the instruction pointer and the trace.  A narrow write goes through the 64-bit one: a 32-bit
write clears the upper half, and an 8-bit write keeps the other bytes. -/

/-- The general registers that the fragment names. -/
inductive Reg
  | rax | rcx | rdx | rbx | rsp | rbp | rsi | rdi
  | r8 | r9 | r10 | r11 | r12 | r13 | r14 | r15
  deriving DecidableEq, Repr

/-- A system call: its number and its first three arguments. -/
structure Syscall where
  number : BitVec 64
  arg0 : BitVec 64
  arg1 : BitVec 64
  arg2 : BitVec 64
  deriving DecidableEq, Repr

/-- The machine state: the registers, the two flags the fragment reads, memory, the instruction
pointer, and the system calls so far, the latest at the end. -/
structure State where
  reg : Reg → BitVec 64
  zf : Bool
  df : Bool
  mem : Memory (BitVec 64)
  rip : BitVec 64
  trace : List Syscall

/-- What the operating system answers to a system call: the values it leaves in `rax` and `r11`, and
the memory.  Each is a function of the call and of the memory before it, and `rcx` holds the address
behind the call, as the instruction leaves it. -/
structure Kernel where
  rax : Syscall → Memory (BitVec 64) → BitVec 64
  r11 : Syscall → Memory (BitVec 64) → BitVec 64
  mem : Syscall → Memory (BitVec 64) → Memory (BitVec 64)

/-- A memory operand `[base + index * scale + disp]`. -/
structure Addr where
  base : Reg
  index : Option (Reg × BitVec 64)
  disp : BitVec 64
  deriving DecidableEq, Repr

namespace State

/-- Write a 64-bit register; the other registers and fields stay as they are. -/
def setReg (s : State) (r : Reg) (v : BitVec 64) : State :=
  { s with reg := Function.update s.reg r v }

def goto (s : State) (a : BitVec 64) : State := { s with rip := a }

def setZf (s : State) (b : Bool) : State := { s with zf := b }

/-- Read the low half of a register, as the 32-bit name of it does. -/
def reg32 (s : State) (r : Reg) : BitVec 32 := (s.reg r).setWidth 32

/-- Write the low half of a register; the upper half becomes zero. -/
def setReg32 (s : State) (r : Reg) (v : BitVec 32) : State := s.setReg r (v.setWidth 64)

/-- Read the low byte of a register, as `al` is that of `rax`. -/
def reg8 (s : State) (r : Reg) : Byte := (s.reg r).setWidth 8

/-- Write the low byte of a register; the other bytes keep their values. -/
def setReg8 (s : State) (r : Reg) (v : Byte) : State :=
  s.setReg r ((s.reg r).extractLsb' 8 56 ++ v)

/-- The effective address of a memory operand, computed modulo `2 ^ 64`. -/
def ea (s : State) (a : Addr) : BitVec 64 :=
  match a.index with
  | none => s.reg a.base + a.disp
  | some (r, scale) => s.reg a.base + s.reg r * scale + a.disp

/-! What each update leaves in each field. -/

section Fields

variable (s : State) (r r' : Reg) (v : BitVec 64) (w : BitVec 32) (b : Bool) (a : BitVec 64)

@[simp] lemma reg_goto : (s.goto a).reg r = s.reg r := rfl
@[simp] lemma reg32_goto : (s.goto a).reg32 r = s.reg32 r := rfl
@[simp] lemma reg8_goto : (s.goto a).reg8 r = s.reg8 r := rfl
@[simp] lemma mem_goto : (s.goto a).mem = s.mem := rfl
@[simp] lemma zf_goto : (s.goto a).zf = s.zf := rfl
@[simp] lemma rip_goto : (s.goto a).rip = a := rfl
@[simp] lemma trace_goto : (s.goto a).trace = s.trace := rfl

@[simp] lemma reg_setZf : (s.setZf b).reg r = s.reg r := rfl
@[simp] lemma reg32_setZf : (s.setZf b).reg32 r = s.reg32 r := rfl
@[simp] lemma mem_setZf : (s.setZf b).mem = s.mem := rfl
@[simp] lemma zf_setZf : (s.setZf b).zf = b := rfl
@[simp] lemma df_setZf : (s.setZf b).df = s.df := rfl
@[simp] lemma trace_setZf : (s.setZf b).trace = s.trace := rfl

@[simp] lemma mem_setReg : (s.setReg r v).mem = s.mem := rfl
@[simp] lemma mem_setReg32 : (s.setReg32 r w).mem = s.mem := rfl
@[simp] lemma zf_setReg : (s.setReg r v).zf = s.zf := rfl
@[simp] lemma df_setReg : (s.setReg r v).df = s.df := rfl
@[simp] lemma trace_setReg : (s.setReg r v).trace = s.trace := rfl
@[simp] lemma zf_setReg32 : (s.setReg32 r w).zf = s.zf := rfl

@[simp] lemma reg_setReg_self : (s.setReg r v).reg r = v := by simp [setReg]

@[simp] lemma reg_setReg_ne (h : r' ≠ r) : (s.setReg r v).reg r' = s.reg r' := by
  simp [setReg, Function.update_of_ne h]

@[simp] lemma reg32_setReg_ne (h : r' ≠ r) : (s.setReg r v).reg32 r' = s.reg32 r' := by
  simp [reg32, h]

@[simp] lemma reg_setReg32_self : (s.setReg32 r w).reg r = w.setWidth 64 := by simp [setReg32]

@[simp] lemma reg_setReg32_ne (h : r' ≠ r) : (s.setReg32 r w).reg r' = s.reg r' := by
  simp [setReg32, h]

@[simp] lemma reg32_setReg32_self : (s.setReg32 r w).reg32 r = w := by
  simp [reg32, BitVec.setWidth_setWidth_of_le]

@[simp] lemma reg32_setReg32_ne (h : r' ≠ r) : (s.setReg32 r w).reg32 r' = s.reg32 r' := by
  simp [reg32, h]

@[simp] lemma mem_setReg8 (c : Byte) : (s.setReg8 r c).mem = s.mem := rfl
@[simp] lemma trace_setReg8 (c : Byte) : (s.setReg8 r c).trace = s.trace := rfl

@[simp] lemma reg_setReg8_ne (c : Byte) (h : r' ≠ r) : (s.setReg8 r c).reg r' = s.reg r' :=
  reg_setReg_ne s r r' _ h

@[simp] lemma reg8_setReg8_self (c : Byte) : (s.setReg8 r c).reg8 r = c := by
  rw [setReg8, reg8, reg_setReg_self]
  apply BitVec.eq_of_getLsbD_eq
  intro i hi
  simp only [BitVec.getLsbD_setWidth, BitVec.getLsbD_append]
  grind

end Fields

end State

/-! ## The stack

Only return addresses are pushed here, so the stack is eight bytes at a time, read and written in
little-endian order.  That a load finds what a store has left is a fact about the offsets of one run. -/

/-- The bytes of a 64-bit word, in little-endian order: the lowest comes first. -/
def bytes64 (v : BitVec 64) : List Byte :=
  (List.range 8).map fun i => v.extractLsb' (8 * i) 8

/-- A little-endian 64-bit load, from eight addresses one behind the other. -/
def load64 (m : Memory (BitVec 64)) (a : BitVec 64) : BitVec 64 :=
  m (a + (7 : ℕ)) ++ m (a + (6 : ℕ)) ++ m (a + (5 : ℕ)) ++ m (a + (4 : ℕ)) ++ m (a + (3 : ℕ)) ++
    m (a + (2 : ℕ)) ++ m (a + (1 : ℕ)) ++ m (a + (0 : ℕ))

/-- A little-endian 64-bit store, to eight addresses one behind the other. -/
def store64 (m : Memory (BitVec 64)) (a v : BitVec 64) : Memory (BitVec 64) :=
  m.write a (bytes64 v)

@[simp] lemma length_bytes64 (v : BitVec 64) : (bytes64 v).length = 8 := by simp [bytes64]

lemma load64_congr {m m' : Memory (BitVec 64)} {a : BitVec 64}
    (h : m.read a 8 = m'.read a 8) : load64 m a = load64 m' a := by
  have hbyte : ∀ i : ℕ, i < 8 → m (a + (i : BitVec 64)) = m' (a + (i : BitVec 64)) :=
    fun i hi => Memory.apply_eq_of_read_eq h hi
  simp only [load64]
  rw [hbyte 7 (by decide), hbyte 6 (by decide), hbyte 5 (by decide), hbyte 4 (by decide),
    hbyte 3 (by decide), hbyte 2 (by decide), hbyte 1 (by decide), hbyte 0 (by decide)]

/-- Offsets below `2 ^ 64` are distinct, so a run of at most that length does not meet itself. -/
lemma offsetsDistinct (a : BitVec 64) {n : ℕ} (hn : n ≤ 2 ^ 64) :
    Memory.OffsetsDistinct a n := by
  intro i hi j hj heq
  have hcast := congrArg BitVec.toNat (add_left_cancel heq)
  rw [BitVec.natCast_eq_ofNat, BitVec.natCast_eq_ofNat, BitVec.toNat_ofNat, BitVec.toNat_ofNat,
    Nat.mod_eq_of_lt (by omega), Nat.mod_eq_of_lt (by omega)] at hcast
  exact hcast

/-- Runs that are apart as intervals of naturals are apart. -/
lemma apart_of_le {a b : BitVec 64} {n k : ℕ} (hab : a.toNat + n ≤ b.toNat)
    (hb : b.toNat + k ≤ 2 ^ 64) : Memory.Apart a n b k := by
  intro i hi j hj heq
  have hcast := congrArg BitVec.toNat heq
  rw [BitVec.natCast_eq_ofNat, BitVec.natCast_eq_ofNat, BitVec.toNat_add, BitVec.toNat_add,
    BitVec.toNat_ofNat, BitVec.toNat_ofNat] at hcast
  omega

lemma load64_store64 (m : Memory (BitVec 64)) (a v : BitVec 64) :
    load64 (store64 m a v) a = v := by
  have hbyte : ∀ i : ℕ, i < 8 → store64 m a v (a + (i : BitVec 64)) = v.extractLsb' (8 * i) 8 := by
    intro i hi
    rw [store64, Memory.write_apply_add m a (bytes64 v) (offsetsDistinct a (by simp))
      (by simpa using hi)]
    simp [bytes64]
  simp only [load64]
  rw [hbyte 7 (by decide), hbyte 6 (by decide), hbyte 5 (by decide), hbyte 4 (by decide),
    hbyte 3 (by decide), hbyte 2 (by decide), hbyte 1 (by decide), hbyte 0 (by decide)]
  apply BitVec.eq_of_getLsbD_eq
  intro i hi
  simp only [BitVec.getLsbD_append, BitVec.getLsbD_extractLsb']
  grind

/-! ## Instructions

What an instruction computes is given apart from where control goes behind it.  A stretch of `Op`s is
then a function of the state, and proofs about straight code need not mention addresses. -/

/-- The second operand of a 32-bit instruction: a register, a constant, or a word in memory. -/
inductive Src
  | reg (r : Reg)
  | imm (v : BitVec 32)
  | mem (a : Addr)
  deriving DecidableEq, Repr

/-- The 32-bit arithmetic of the fragment. -/
inductive Alu
  | add | sub | xor | and
  deriving DecidableEq, Repr

/-- The instructions that only compute: none of them changes the instruction pointer or calls the
system. -/
inductive Op
  | movImm64 (d : Reg) (v : BitVec 64)
  | mov64 (d s : Reg)
  | mov32 (d : Reg) (s : Src)
  | store32 (a : Addr) (s : Reg)
  | load8 (d : Reg) (a : Addr)
  | alu32 (op : Alu) (d : Reg) (s : Src)
  | shl32 (d : Reg) (n : ℕ)
  | shr32 (d : Reg) (n : ℕ)
  | xor64 (d s : Reg)
  | inc64 (d : Reg)
  | cmp32 (d : Reg) (s : Src)
  | cmp64 (d s : Reg)
  | test32 (d s : Reg)
  | test8 (d s : Reg)
  | setz (d : Reg)
  | nop
  | cld
  | repMovsb
  | repCmpsb
  deriving DecidableEq, Repr

/-- An instruction, over the type of its jump targets: labels in the text of a program, addresses in an
image. -/
inductive Instr (L : Type)
  | op (o : Op)
  | jmp (l : L)
  | jz (l : L)
  | jnz (l : L)
  | call (r : Reg)
  | ret
  | syscall
  deriving DecidableEq, Repr

/-- A line of assembly text: a label, or an instruction whose jumps go to labels. -/
inductive Line (L : Type)
  | label (l : L)
  | instr (i : Instr L)
  deriving DecidableEq, Repr

/-- The value of a 32-bit operand, in a state of the machine. -/
def State.src (s : State) : Src → BitVec 32
  | .reg r => s.reg32 r
  | .imm v => v
  | .mem a => s.mem.load32 (s.ea a)

/-- The result of a 32-bit operation, of which additions and subtractions wrap. -/
def Alu.eval : Alu → BitVec 32 → BitVec 32 → BitVec 32
  | .add, a, b => a + b
  | .sub, a, b => a - b
  | .xor, a, b => a ^^^ b
  | .and, a, b => a &&& b

/-- The step of a string instruction on its pointers: up, or down under the direction flag. -/
def State.stride (s : State) : BitVec 64 := if s.df then -1#64 else 1#64

/-- One `movsb`, and the count of a `rep`: a byte goes from `[rsi]` to `[rdi]`, both pointers take a
step, and `rcx` goes down. -/
def State.movsb (s : State) : State :=
  let m := Function.update s.mem (s.reg .rdi) (s.mem (s.reg .rsi))
  let s' := { s with mem := m }
  ((s'.setReg .rsi (s.reg .rsi + s.stride)).setReg .rdi (s.reg .rdi + s.stride)).setReg .rcx
    (s.reg .rcx - 1#64)

/-- One `cmpsb`, and the count of a `rep`: the zero flag says whether the bytes at the two pointers are
equal, both take a step, and `rcx` goes down. -/
def State.cmpsb (s : State) : State :=
  let s' := s.setZf (s.mem (s.reg .rsi) == s.mem (s.reg .rdi))
  ((s'.setReg .rsi (s.reg .rsi + s.stride)).setReg .rdi (s.reg .rdi + s.stride)).setReg .rcx
    (s.reg .rcx - 1#64)

/-- `rep movsb` with a count of `n`, one byte after the other. -/
def repMovsb : ℕ → State → State
  | 0, s => s
  | n + 1, s => repMovsb n s.movsb

/-- `rep cmpsb` with a count of `n`: it stops after the first pair that differs. -/
def repCmpsb : ℕ → State → State
  | 0, s => s
  | n + 1, s => if s.cmpsb.zf then repCmpsb n s.cmpsb else s.cmpsb

section Compare

variable (s : State)

@[simp] lemma State.mem_cmpsb : s.cmpsb.mem = s.mem := rfl
@[simp] lemma State.trace_cmpsb : s.cmpsb.trace = s.trace := rfl
@[simp] lemma State.df_cmpsb : s.cmpsb.df = s.df := rfl
@[simp] lemma State.zf_cmpsb : s.cmpsb.zf = (s.mem (s.reg .rsi) == s.mem (s.reg .rdi)) := rfl
@[simp] lemma State.rsp_cmpsb : s.cmpsb.reg .rsp = s.reg .rsp := rfl
@[simp] lemma State.rsi_cmpsb : s.cmpsb.reg .rsi = s.reg .rsi + s.stride := by
  simp [cmpsb]
@[simp] lemma State.rdi_cmpsb : s.cmpsb.reg .rdi = s.reg .rdi + s.stride := by
  simp [cmpsb]

/-- What one `cmpsb` keeps, `rep cmpsb` keeps, however early it stops. -/
lemma repCmpsb_keeps {α : Type*} {f : State → α} (hf : ∀ t : State, f t.cmpsb = f t) (n : ℕ) :
    f (repCmpsb n s) = f s := by
  induction n generalizing s with
  | zero => rfl
  | succ n ih =>
      rw [repCmpsb]
      split
      · rw [ih, hf]
      · exact hf s

/-- The zero flag after `rep cmpsb` says whether the two runs are equal, when the flag is set
before and the pointers move up. -/
lemma repCmpsb_zf (n : ℕ) (hdf : s.df = false) (hzf : s.zf = true) :
    (repCmpsb n s).zf = decide (s.mem.read (s.reg .rsi) n = s.mem.read (s.reg .rdi) n) := by
  induction n generalizing s with
  | zero => simpa [repCmpsb] using hzf
  | succ n ih =>
      have hstride : s.stride = 1 := by
        rw [State.stride, hdf]
        rfl
      rw [repCmpsb, Memory.read_succ, Memory.read_succ]
      by_cases hbyte : s.mem (s.reg .rsi) = s.mem (s.reg .rdi)
      · have hset : s.cmpsb.zf = true := by simp [hbyte]
        rw [if_pos hset, ih s.cmpsb hdf hset]
        simp [hstride, hbyte]
      · rw [if_neg (by simpa using hbyte)]
        simp [hbyte]

end Compare

/-- The effect of an `Op`, apart from the instruction pointer, which the step moves. -/
def Op.exec (s : State) : Op → State
  | .movImm64 d v => s.setReg d v
  | .mov64 d r => s.setReg d (s.reg r)
  | .mov32 d x => s.setReg32 d (s.src x)
  | .store32 a r => { s with mem := s.mem.store32 (s.ea a) (s.reg32 r) }
  | .load8 d a => s.setReg8 d (s.mem (s.ea a))
  | .alu32 op d x =>
      let v := op.eval (s.reg32 d) (s.src x)
      (s.setReg32 d v).setZf (v == 0#32)
  | .shl32 d n =>
      let v := s.reg32 d <<< n
      (s.setReg32 d v).setZf (v == 0#32)
  | .shr32 d n =>
      let v := s.reg32 d >>> n
      (s.setReg32 d v).setZf (v == 0#32)
  | .xor64 d r =>
      let v := s.reg d ^^^ s.reg r
      (s.setReg d v).setZf (v == 0#64)
  | .inc64 d =>
      let v := s.reg d + 1#64
      (s.setReg d v).setZf (v == 0#64)
  | .cmp32 d x => s.setZf (s.reg32 d == s.src x)
  | .cmp64 d r => s.setZf (s.reg d == s.reg r)
  | .test32 d r => s.setZf ((s.reg32 d &&& s.reg32 r) == 0#32)
  | .test8 d r => s.setZf ((s.reg8 d &&& s.reg8 r) == 0#8)
  | .setz d => s.setReg8 d (if s.zf then 1#8 else 0#8)
  | .nop => s
  | .cld => { s with df := false }
  | .repMovsb => X86.repMovsb (s.reg .rcx).toNat s
  | .repCmpsb => X86.repCmpsb (s.reg .rcx).toNat s

/-- A stretch of `Op`s, one after the other, with the instruction pointer where it was. -/
def execOps (os : List Op) (s : State) : State := os.foldl Op.exec s

/-- The `Op`s that do not write memory, which are all but the two that store. -/
def Op.keepsMem : Op → Bool
  | .store32 _ _ | .repMovsb => false
  | _ => true

lemma repCmpsb_mem (n : ℕ) (s : State) : (repCmpsb n s).mem = s.mem :=
  repCmpsb_keeps s (f := State.mem) (fun _ => rfl) n

lemma Op.mem_exec {o : Op} (h : o.keepsMem = true) (s : State) : (o.exec s).mem = s.mem := by
  cases o with
  | store32 => exact absurd h (by simp [Op.keepsMem])
  | repMovsb => exact absurd h (by simp [Op.keepsMem])
  | repCmpsb => exact repCmpsb_mem _ s
  | _ => rfl

lemma mem_execOps {os : List Op} (h : os.all Op.keepsMem = true) (s : State) :
    (execOps os s).mem = s.mem := by
  induction os generalizing s with
  | nil => rfl
  | cons o os ih =>
      rw [List.all_cons, Bool.and_eq_true] at h
      exact (ih h.2 (o.exec s)).trans (Op.mem_exec h.1 s)

/-- Push the return address and transfer control, as a call through a register does. -/
def State.pushCall (s : State) (next target : BitVec 64) : State :=
  let sp := s.reg .rsp - 8#64
  { s.setReg .rsp sp with mem := store64 s.mem sp next, rip := target }

/-- Transfer control to the popped return address, and move the stack pointer behind it. -/
def State.popRet (s : State) : State :=
  { s.setReg .rsp (s.reg .rsp + 8#64) with rip := load64 s.mem (s.reg .rsp) }

/-! What a call and a return leave in each field. -/

section Transfers

variable (s : State) (r : Reg) (next target : BitVec 64)

@[simp] lemma State.rip_pushCall : (s.pushCall next target).rip = target := rfl
@[simp] lemma State.trace_pushCall : (s.pushCall next target).trace = s.trace := rfl
@[simp] lemma State.zf_pushCall : (s.pushCall next target).zf = s.zf := rfl
@[simp] lemma State.df_pushCall : (s.pushCall next target).df = s.df := rfl

lemma State.mem_pushCall :
    (s.pushCall next target).mem = store64 s.mem (s.reg .rsp - 8#64) next := rfl

@[simp] lemma State.rsp_pushCall :
    (s.pushCall next target).reg .rsp = s.reg .rsp - 8#64 :=
  reg_setReg_self s .rsp (s.reg .rsp - 8#64)

@[simp] lemma State.reg_pushCall (h : r ≠ .rsp) :
    (s.pushCall next target).reg r = s.reg r :=
  reg_setReg_ne s .rsp r (s.reg .rsp - 8#64) h

lemma State.rip_popRet : s.popRet.rip = load64 s.mem (s.reg .rsp) := rfl

@[simp] lemma State.mem_popRet : s.popRet.mem = s.mem := rfl
@[simp] lemma State.trace_popRet : s.popRet.trace = s.trace := rfl
@[simp] lemma State.zf_popRet : s.popRet.zf = s.zf := rfl
@[simp] lemma State.df_popRet : s.popRet.df = s.df := rfl

@[simp] lemma State.rsp_popRet : s.popRet.reg .rsp = s.reg .rsp + 8#64 :=
  reg_setReg_self s .rsp (s.reg .rsp + 8#64)

@[simp] lemma State.reg_popRet (h : r ≠ .rsp) : s.popRet.reg r = s.reg r :=
  reg_setReg_ne s .rsp r (s.reg .rsp + 8#64) h

@[simp] lemma State.reg8_popRet (h : r ≠ .rsp) : s.popRet.reg8 r = s.reg8 r := by
  rw [reg8, reg8, reg_popRet s r h]

end Transfers

/-- The system call a state is about to make: its number in `rax`, and three arguments. -/
def State.call (s : State) : Syscall :=
  { number := s.reg .rax, arg0 := s.reg .rdi, arg1 := s.reg .rsi, arg2 := s.reg .rdx }

/-- The effect of an instruction whose successor in memory is at `next`.  A conditional jump tests the
zero flag, and a system call is answered by the kernel and recorded in the trace. -/
def Instr.exec (k : Kernel) (next : BitVec 64) (s : State) : Instr (BitVec 64) → State
  | .op o => (o.exec s).goto next
  | .jmp t => s.goto t
  | .jz t => s.goto (if s.zf then t else next)
  | .jnz t => s.goto (if s.zf then next else t)
  | .call r => s.pushCall next (s.reg r)
  | .ret => s.popRet
  | .syscall =>
      let c := s.call
      let s' := { s with mem := k.mem c s.mem, trace := s.trace ++ [c], rip := next }
      ((s'.setReg .rax (k.rax c s.mem)).setReg .rcx next).setReg .r11 (k.r11 c s.mem)

/-! ## Execution

The image gives the instruction at an address and the number of bytes it takes, as a decoder does.
Code is not read from memory: an image is fixed for a run, and a step exists only where it has an
instruction. -/

/-- The instructions in memory: the one that starts at an address, and its length. -/
abbrev Image := BitVec 64 → Option (Instr (BitVec 64) × ℕ)

/-- One instruction; `none` when no instruction of the image starts at `rip`. -/
def step (img : Image) (k : Kernel) (s : State) : Option State :=
  (img s.rip).map fun i => i.1.exec k (s.rip + BitVec.ofNat 64 i.2) s

/-- `n` instructions; `none` when the machine is stuck before. -/
def run (img : Image) (k : Kernel) : ℕ → State → Option State
  | 0, s => some s
  | n + 1, s => (step img k s).bind (run img k n)

lemma run_trans {img : Image} {k : Kernel} {n p : ℕ} {s t u : State}
    (h₁ : run img k n s = some t) (h₂ : run img k p t = some u) :
    run img k (n + p) s = some u := by
  induction n generalizing s with
  | zero =>
      rw [run, Option.some.injEq] at h₁
      rwa [Nat.zero_add, h₁]
  | succ n ih =>
      rw [run] at h₁
      obtain ⟨s', hstep, hrest⟩ := Option.bind_eq_some_iff.mp h₁
      rw [Nat.add_right_comm, run, hstep]
      exact ih hrest

lemma run_one {img : Image} {k : Kernel} {s t : State} (h : step img k s = some t) :
    run img k 1 s = some t := by
  simp [run, h]

/-- Run to an address, for at most `fuel` instructions; `none` when they were not enough. -/
def runUntil (img : Image) (k : Kernel) (stop : BitVec 64) : ℕ → State → Option State
  | 0, s => if s.rip = stop then some s else none
  | fuel + 1, s =>
      if s.rip = stop then some s else (step img k s).bind (runUntil img k stop fuel)

/-- A run that ends at an address without an instruction is a run to that address. -/
lemma runUntil_of_run {img : Image} {k : Kernel} {stop : BitVec 64} (hstop : img stop = none)
    {n : ℕ} {s s' : State} (hrun : run img k n s = some s') (hrip : s'.rip = stop) {fuel : ℕ}
    (hfuel : n ≤ fuel) : runUntil img k stop fuel s = some s' := by
  induction n generalizing s fuel with
  | zero =>
      rw [run, Option.some.injEq] at hrun
      subst hrun
      cases fuel with
      | zero => exact if_pos hrip
      | succ fuel => exact if_pos hrip
  | succ n ih =>
      rw [run] at hrun
      obtain ⟨t, hstep, hrest⟩ := Option.bind_eq_some_iff.mp hrun
      -- an instruction was executed, so the run was not there yet
      have hne : s.rip ≠ stop := by
        intro hsame
        rw [step, hsame, hstop] at hstep
        cases hstep
      cases fuel with
      | zero => omega
      | succ fuel =>
          rw [runUntil, if_neg hne, hstep]
          exact ih hrest (by omega)

/-- Every state met from `s` in `n` steps, the first and the last included, satisfies `J`. -/
def Along (img : Image) (k : Kernel) (J : State → Prop) (n : ℕ) (s : State) : Prop :=
  ∀ i ≤ n, ∃ t, run img k i s = some t ∧ J t

section Along

variable {img : Image} {k : Kernel} {J : State → Prop} {n p : ℕ} {s t : State}

lemma Along.trans (h₁ : Along img k J n s) (hrun : run img k n s = some t)
    (h₂ : Along img k J p t) : Along img k J (n + p) s := by
  intro i hi
  by_cases hin : i ≤ n
  · exact h₁ i hin
  · obtain ⟨u, hu, hJ⟩ := h₂ (i - n) (by omega)
    have hboth := run_trans hrun hu
    rw [Nat.add_sub_cancel' (by omega)] at hboth
    exact ⟨u, hboth, hJ⟩

lemma along_step (hs : J s) (hstep : step img k s = some t) (ht : J t) : Along img k J 1 s := by
  intro i hi
  rcases Nat.le_one_iff_eq_zero_or_eq_one.mp hi with rfl | rfl
  · exact ⟨s, rfl, hs⟩
  · exact ⟨t, run_one hstep, ht⟩

end Along

/-! ## Assembled programs

A text refers to positions by labels, an image by addresses.  `Placed` connects them, and the theorems
that follow run a text at any place an assembler may have put it. -/

variable {L : Type} [DecidableEq L]

/-- Replace the jump target, in the instructions that have one. -/
def Instr.resolve {M : Type} (f : L → M) : Instr L → Instr M
  | .op o => .op o
  | .jmp l => .jmp (f l)
  | .jz l => .jz (f l)
  | .jnz l => .jnz (f l)
  | .call r => .call r
  | .ret => .ret
  | .syscall => .syscall

/-- The position of a label in the text, the first if it is there more than once. -/
def labelIndex (prog : List (Line L)) (l : L) : ℕ := prog.idxOf (.label l)

/-- The image holds the assembled lines of `prog` from `base` on: line `i` starts at `addr i`,
a label takes no room, and an instruction is followed by the next line.  A jump goes to the
address of its label. -/
structure Placed (img : Image) (base : BitVec 64) (prog : List (Line L)) where
  addr : ℕ → BitVec 64
  addr_zero : addr 0 = base
  addr_label : ∀ i l, prog[i]? = some (.label l) → addr (i + 1) = addr i
  fetch : ∀ i ins, prog[i]? = some (.instr ins) →
    ∃ len, img (addr i) = some (ins.resolve fun l => addr (labelIndex prog l), len) ∧
      addr (i + 1) = addr i + BitVec.ofNat 64 len

namespace Placed

variable {img : Image} {base : BitVec 64} {prog : List (Line L)} (P : Placed img base prog)
  (k : Kernel)

/-- Execute the line at a position: the machine takes the instruction of the text, with the addresses
of the labels it names. -/
lemma step_eq {i : ℕ} {ins : Instr L} {s : State} (hget : prog[i]? = some (.instr ins))
    (hrip : s.rip = P.addr i) :
    step img k s =
      some ((ins.resolve fun l => P.addr (labelIndex prog l)).exec k (P.addr (i + 1)) s) := by
  obtain ⟨len, hfetch, hnext⟩ := P.fetch i ins hget
  rw [step, hrip, hfetch, hnext]
  rfl

lemma step_call {i : ℕ} {r : Reg} {s : State} (hget : prog[i]? = some (.instr (.call r)))
    (hrip : s.rip = P.addr i) :
    step img k s = some (s.pushCall (P.addr (i + 1)) (s.reg r)) :=
  P.step_eq k hget hrip

lemma step_ret {i : ℕ} {s : State} (hget : prog[i]? = some (.instr .ret))
    (hrip : s.rip = P.addr i) : step img k s = some s.popRet :=
  P.step_eq k hget hrip

lemma step_op {i : ℕ} {o : Op} {s : State} (hget : prog[i]? = some (.instr (.op o)))
    (hrip : s.rip = P.addr i) : step img k s = some ((o.exec s).goto (P.addr (i + 1))) :=
  P.step_eq k hget hrip

lemma step_jmp {i : ℕ} {l : L} {s : State} (hget : prog[i]? = some (.instr (.jmp l)))
    (hrip : s.rip = P.addr i) : step img k s = some (s.goto (P.addr (labelIndex prog l))) :=
  P.step_eq k hget hrip

lemma step_jz {i : ℕ} {l : L} {s : State} (hget : prog[i]? = some (.instr (.jz l)))
    (hrip : s.rip = P.addr i) :
    step img k s =
      some (s.goto (if s.zf then P.addr (labelIndex prog l) else P.addr (i + 1))) :=
  P.step_eq k hget hrip

lemma step_jnz {i : ℕ} {l : L} {s : State} (hget : prog[i]? = some (.instr (.jnz l)))
    (hrip : s.rip = P.addr i) :
    step img k s =
      some (s.goto (if s.zf then P.addr (i + 1) else P.addr (labelIndex prog l))) :=
  P.step_eq k hget hrip

end Placed

/-! ### Stretches of `Op`s -/

lemma repMovsb_goto (n : ℕ) (s : State) (a : BitVec 64) :
    repMovsb n (s.goto a) = (repMovsb n s).goto a := by
  induction n generalizing s with
  | zero => rfl
  | succ n ih => exact ih s.movsb

lemma repCmpsb_goto (n : ℕ) (s : State) (a : BitVec 64) :
    repCmpsb n (s.goto a) = (repCmpsb n s).goto a := by
  induction n generalizing s with
  | zero => rfl
  | succ n ih =>
      by_cases h : s.cmpsb.zf
      · have h' : (s.goto a).cmpsb.zf = true := h
        rw [repCmpsb, repCmpsb, if_pos h, if_pos h']
        exact ih s.cmpsb
      · have h' : ¬(s.goto a).cmpsb.zf = true := h
        rw [repCmpsb, repCmpsb, if_neg h, if_neg h']
        rfl

/-- An `Op` neither reads nor writes the instruction pointer, so it can be moved before or behind. -/
lemma Op.exec_goto (o : Op) (s : State) (a : BitVec 64) :
    o.exec (s.goto a) = (o.exec s).goto a := by
  cases o with
  | repMovsb => exact repMovsb_goto _ s a
  | repCmpsb => exact repCmpsb_goto _ s a
  | mov32 d x => cases x <;> rfl
  | alu32 op d x => cases x <;> rfl
  | cmp32 d x => cases x <;> rfl
  | _ => rfl

lemma execOps_goto (os : List Op) (s : State) (a : BitVec 64) :
    execOps os (s.goto a) = (execOps os s).goto a := by
  induction os generalizing s with
  | nil => rfl
  | cons o os ih =>
      simp only [execOps, List.foldl_cons] at ih ⊢
      rw [Op.exec_goto, ih]

namespace Placed

variable {img : Image} {base : BitVec 64} {prog : List (Line L)} (P : Placed img base prog)
  (k : Kernel)

/-- **Straight-line code.**  From the position of the first of a stretch of `Op`s, the machine
executes them all and stands behind the last. -/
lemma run_ops (os : List Op) {i : ℕ} {rest : List (Line L)} {s : State}
    (hcode : prog.drop i = os.map (fun o => .instr (.op o)) ++ rest) (hrip : s.rip = P.addr i) :
    run img k os.length s = some ((execOps os s).goto (P.addr (i + os.length))) := by
  induction os generalizing i s with
  | nil =>
      rw [List.length_nil, Nat.add_zero, ← hrip]
      rfl
  | cons o os ih =>
      have hget : prog[i]? = some (.instr (.op o)) := by
        have hhead := congrArg List.head? hcode
        simpa using hhead
      have htail : prog.drop (i + 1) = os.map (fun o => .instr (.op o)) ++ rest := by
        have htl := congrArg List.tail hcode
        simpa using htl
      have hstep := P.step_op k hget hrip
      have hrun := ih (s := (o.exec s).goto (P.addr (i + 1))) htail rfl
      rw [List.length_cons, run, hstep, Option.bind_some, hrun, execOps_goto,
        Nat.add_assoc i 1, Nat.add_comm 1]
      rfl

/-- A stretch of `Op`s and the system call it sets up. -/
lemma run_syscall (os : List Op) {i : ℕ} {rest : List (Line L)} {s : State}
    (hcode : prog.drop i = os.map (fun o => .instr (.op o)) ++ .instr .syscall :: rest)
    (hrip : s.rip = P.addr i) :
    ∃ s', run img k (os.length + 1) s = some s' ∧ s'.rip = P.addr (i + os.length + 1) ∧
      s'.mem = k.mem (execOps os s).call (execOps os s).mem ∧
      s'.trace = (execOps os s).trace ++ [(execOps os s).call] ∧
      s'.reg .rsp = (execOps os s).reg .rsp := by
  have hline : prog[i + os.length]? = some (.instr .syscall) := by
    have hdrop := congrArg (·[os.length]?) hcode
    simpa [List.getElem?_append_right] using hdrop
  have hops := P.run_ops k os hcode hrip
  have hsys := P.step_eq k (s := (execOps os s).goto (P.addr (i + os.length))) hline rfl
  exact ⟨_, run_trans hops (run_one hsys), rfl, rfl, rfl, rfl⟩

/-- The machine meets nothing but the states of the stretch on the way. -/
lemma along_ops {J : State → Prop} (os : List Op) {i : ℕ} {rest : List (Line L)} {s : State}
    (hcode : prog.drop i = os.map (fun o => .instr (.op o)) ++ rest) (hrip : s.rip = P.addr i)
    (hJ : ∀ j a, J ((execOps (os.take j) s).goto a)) : Along img k J os.length s := by
  intro j hj
  have hprefix : prog.drop i = (os.take j).map (fun o => .instr (.op o)) ++
      ((os.drop j).map (fun o => .instr (.op o)) ++ rest) := by
    rw [hcode, ← List.append_assoc, ← List.map_append, List.take_append_drop]
  have hrun := P.run_ops k (os.take j) hprefix hrip
  rw [List.length_take_of_le hj] at hrun
  exact ⟨_, hrun, hJ j _⟩

section DoWhile

variable (os : List Op) {i : ℕ} {l : L} {rest : List (Line L)}
  (hlabel : labelIndex prog l = i) (hhead : prog[i]? = some (.label l))
  (hcode : prog.drop (i + 1) = os.map (fun o => .instr (.op o)) ++ (.instr (.jnz l) :: rest))
include hlabel hhead hcode

omit [DecidableEq L] hlabel hhead in
lemma getElem?_jnz : prog[i + 1 + os.length]? = some (.instr (.jnz l)) := by
  have hdrop := congrArg (·[os.length]?) hcode
  simpa [List.getElem?_append_right] using hdrop

/-- One pass, whichever way the jump goes: back to the label when the zero flag is clear, and behind
the jump when it is set. -/
lemma run_pass {s : State} (hs : s.rip = P.addr i) :
    run img k (os.length + 1) s = some ((execOps os s).goto
      (if (execOps os s).zf then P.addr (i + 1 + os.length + 1) else P.addr i)) := by
  have htop : P.addr (i + 1) = P.addr i := P.addr_label i l hhead
  refine run_trans (P.run_ops k os hcode (hs.trans htop.symm)) (run_one ?_)
  rw [P.step_jnz k (getElem?_jnz os hcode) rfl, hlabel]
  rfl

omit hlabel in
lemma along_pass {J : State → Prop} {s : State} (hs : s.rip = P.addr i)
    (hJ : ∀ j a, J ((execOps (os.take j) s).goto a)) : Along img k J (os.length + 1) s := by
  have htop : P.addr (i + 1) = P.addr i := P.addr_label i l hhead
  have hrip : s.rip = P.addr (i + 1) := hs.trans htop.symm
  have hend : ∀ a, J ((execOps os s).goto a) := fun a => by
    simpa using hJ os.length a
  exact (P.along_ops k os hcode hrip hJ).trans (P.run_ops k os hcode hrip)
    (along_step (hend _) (P.step_jnz k (getElem?_jnz os hcode) rfl) (hend _))

variable {I : ℕ → State → Prop} (hgoto : ∀ j s a, I j s → I j (s.goto a)) {n : ℕ}
  (hbody : ∀ j s, j ≤ n → I j s →
    I (j + 1) (execOps os s) ∧ (execOps os s).zf = decide (j = n))
  {s : State} (hstart : I 0 s) (hrip : s.rip = P.addr i)
include hgoto hbody hstart hrip

/-- The passes before the last all return to the label. -/
lemma run_doWhile_heads : ∀ j ≤ n, ∃ t, run img k (j * (os.length + 1)) s = some t ∧ I j t ∧
    t.rip = P.addr i := by
  intro j
  induction j with
  | zero =>
      intro _
      refine ⟨s, ?_, hstart, hrip⟩
      rw [Nat.zero_mul]
      rfl
  | succ j ih =>
      intro hj
      obtain ⟨t, hrun, hinv, ht⟩ := ih (by omega)
      obtain ⟨hnext, hzf⟩ := hbody j t (by omega) hinv
      have hback : (execOps os t).zf = false := by
        rw [hzf]
        exact decide_eq_false (by omega)
      have hpassed := run_trans hrun (P.run_pass k os hlabel hhead hcode ht)
      rw [hback, ← Nat.succ_mul] at hpassed
      exact ⟨_, hpassed, hgoto _ _ _ hnext, rfl⟩

/-- **Loops without a counter.**  A stretch of `Op`s between the label `l` and `jnz l` runs as
often as it leaves the zero flag clear, here `n + 1` times.  The invariant `I` is indexed by the
number of passes made. -/
lemma run_doWhile :
    ∃ s', run img k ((n + 1) * (os.length + 1)) s = some s' ∧ I (n + 1) s' ∧
      s'.rip = P.addr (i + 1 + os.length + 1) := by
  obtain ⟨t, hrun, hinv, ht⟩ :=
    P.run_doWhile_heads k os hlabel hhead hcode hgoto hbody hstart hrip n le_rfl
  obtain ⟨hnext, hzf⟩ := hbody n t le_rfl hinv
  have hpassed := run_trans hrun (P.run_pass k os hlabel hhead hcode ht)
  rw [hzf, decide_eq_true rfl, ← Nat.succ_mul] at hpassed
  exact ⟨_, hpassed, hgoto _ _ _ hnext, rfl⟩

/-- What holds along every pass holds along the loop, in each state from its entry to its last jump. -/
lemma along_doWhile {J : State → Prop}
    (hJ : ∀ j t, I j t → ∀ p a, J ((execOps (os.take p) t).goto a)) :
    Along img k J ((n + 1) * (os.length + 1)) s := by
  have hloop : ∀ j ≤ n + 1, Along img k J (j * (os.length + 1)) s := by
    intro j
    induction j with
    | zero =>
        intro _ i hi
        have hs := hJ 0 s hstart 0 s.rip
        obtain rfl : i = 0 := by omega
        exact ⟨s, rfl, hs⟩
    | succ j ih =>
        intro hj
        obtain ⟨t, hrun, hinv, ht⟩ :=
          P.run_doWhile_heads k os hlabel hhead hcode hgoto hbody hstart hrip j (by omega)
        rw [Nat.succ_mul]
        exact (ih (by omega)).trans hrun (P.along_pass k os hhead hcode ht (hJ j t hinv))
  exact hloop (n + 1) le_rfl

end DoWhile

end Placed

/-! ## An assembler

Every program has a placement: give each instruction one byte, and each program a slot of
`size` bytes. -/

/-- The instructions of a text, without its labels: a label takes no room in the code. -/
def instrs (prog : List (Line L)) : List (Instr L) :=
  prog.filterMap fun
    | .label _ => none
    | .instr ins => some ins

/-- The slots from `base` on, slot `n` holding `code n`. -/
def assembleSlots (size : ℕ) (base : BitVec 64) (code : ℕ → List (Line L)) : Image := fun a =>
  let off := (a - base).toNat
  let prog := code (off / size)
  (instrs prog)[off % size]?.map fun ins =>
    (ins.resolve fun l => base + BitVec.ofNat 64 (size * (off / size) +
      (instrs (prog.take (labelIndex prog l))).length), 1)

omit [DecidableEq L] in
lemma length_instrs_take_le (prog : List (Line L)) (i : ℕ) :
    (instrs (prog.take i)).length ≤ prog.length :=
  (List.length_filterMap_le _ _).trans (List.length_take_le' _ _)

omit [DecidableEq L] in
lemma instrs_take_succ {prog : List (Line L)} {i : ℕ} {line : Line L}
    (h : prog[i]? = some line) :
    instrs (prog.take (i + 1)) = instrs (prog.take i) ++ instrs [line] := by
  rw [List.take_add_one, h, instrs, List.filterMap_append]
  rfl

/-- A program shorter than its slot is placed there: each of its lines has an address, and the image
has the instruction of the line. -/
def placedSlot (size : ℕ) (base : BitVec 64) (code : ℕ → List (Line L)) (slot : ℕ)
    (hlength : (code slot).length < size) (hfits : size * slot + size ≤ 2 ^ 64) :
    Placed (assembleSlots size base code) (base + BitVec.ofNat 64 (size * slot)) (code slot) where
  addr i := base + BitVec.ofNat 64 (size * slot + (instrs ((code slot).take i)).length)
  addr_zero := by simp [instrs]
  addr_label i l h := by
    rw [instrs_take_succ h]
    simp [instrs]
  fetch i ins h := by
    have hbound := length_instrs_take_le (code slot) i
    set pos := (instrs ((code slot).take i)).length with hpos
    have hsplit : instrs (code slot) =
        instrs ((code slot).take i) ++ ins :: instrs ((code slot).drop (i + 1)) := by
      have hdrop := List.drop_eq_getElem_cons (List.getElem?_eq_some_iff.mp h).1
      rw [(List.getElem?_eq_some_iff.mp h).2] at hdrop
      conv_lhs => rw [← List.take_append_drop i (code slot), hdrop]
      simp [instrs]
    refine ⟨1, ?_, ?_⟩
    · have hoff : (base + BitVec.ofNat 64 (size * slot + pos) - base).toNat =
          size * slot + pos := by
        rw [add_sub_cancel_left, BitVec.toNat_ofNat, Nat.mod_eq_of_lt (by omega)]
      have hdiv : (size * slot + pos) / size = slot := by
        rw [Nat.mul_add_div (by omega), Nat.div_eq_of_lt (by omega), Nat.add_zero]
      have hmod : (size * slot + pos) % size = pos := by
        rw [Nat.mul_add_mod, Nat.mod_eq_of_lt (by omega)]
      simp only [assembleSlots, hoff, hdiv, hmod]
      rw [hsplit]
      simp [hpos]
    · rw [instrs_take_succ h, List.length_append, ← Nat.add_assoc, BitVec.ofNat_add, ← add_assoc]
      rfl

end Whuctf.X86
