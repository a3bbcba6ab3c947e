import Whuctf.Client.Verdict

/-!
# The built-in functions

Slots 400 to 402 hold `MEMCPY`, `MEMCMP` and `STRLEN`.  Each returns to its caller, from every memory
and every register values: `MEMCMP` with `al` saying whether the two runs are equal, `STRLEN` with the
offset of the first zero byte.

`MEMCPY` copies forward, one byte at a time, so it copies the original bytes when no byte of the source
is overwritten before it is read.  That is so when the runs are disjoint, and when the destination does
not start above the source, unless the source runs past the top of the address space into it.

The routines are the code of `Routines` on the machine of `Library/X86`, where the string instructions
are loops of single steps.  Their flags and counters at the end of such a loop come from the machine
library; what is added here is what the memory or the result register is in terms of the caller's
arguments.
-/

namespace Whuctf.Client

open X86 Memory

/-! ## Copying forward

`rep movsb` reads a byte and writes it before it reads the next.  `ForwardSafe` is the condition under
which this cannot be told from reading all of them first. -/

section Copy

/-- No byte of the source is the destination of an earlier one. -/
def ForwardSafe (dst src : BitVec 64) (n : ℕ) : Prop :=
  ∀ i j : ℕ, i < j → j < n → dst + (i : BitVec 64) ≠ src + (j : BitVec 64)

lemma forwardSafe_of_apart {dst src : BitVec 64} {n : ℕ} (h : Apart dst n src n) :
    ForwardSafe dst src n := fun i j hij hj => h i (by omega) j hj

/-- A destination that does not start above the source is safe for a copy from the first byte on: what
is written has been read before, unless the source runs past the end of the address space into the
destination. -/
lemma forwardSafe_of_le {dst src : BitVec 64} {n : ℕ} (hle : dst ≤ src)
    (hwrap : src.toNat + n ≤ 2 ^ 64 + dst.toNat) : ForwardSafe dst src n := by
  intro i j hij hj heq
  have hdst := dst.isLt
  have hsrc := src.isLt
  have hle' : dst.toNat ≤ src.toNat := hle
  have hcast := congrArg BitVec.toNat heq
  rw [BitVec.natCast_eq_ofNat, BitVec.natCast_eq_ofNat, BitVec.toNat_add, BitVec.toNat_add,
    BitVec.toNat_ofNat, BitVec.toNat_ofNat] at hcast
  omega

/-- Where the regions are safe for it, copying byte by byte is one write of the bytes that were at the
source before. -/
lemma repMovsb_mem {n : ℕ} {s : State} (hdf : s.df = false)
    (h : ForwardSafe (s.reg .rdi) (s.reg .rsi) n) :
    (repMovsb n s).mem = s.mem.write (s.reg .rdi) (s.mem.read (s.reg .rsi) n) := by
  induction n generalizing s with
  | zero => rfl
  | succ n ih =>
    have hstride : s.stride = 1 := by
      rw [State.stride, hdf]
      rfl
    have hmem : s.movsb.mem = Function.update s.mem (s.reg .rdi) (s.mem (s.reg .rsi)) := rfl
    have hrsi : s.movsb.reg .rsi = s.reg .rsi + 1 := by simp [State.movsb, hstride]
    have hrdi : s.movsb.reg .rdi = s.reg .rdi + 1 := by simp [State.movsb, hstride]
    have hnext : ForwardSafe (s.movsb.reg .rdi) (s.movsb.reg .rsi) n := by
      intro i j hij hj
      rw [hrsi, hrdi, add_one_add_cast, add_one_add_cast]
      exact h (i + 1) (j + 1) (by omega) (by omega)
    -- what is still to be read has not been overwritten
    have hread : s.movsb.mem.read (s.reg .rsi + 1) n = s.mem.read (s.reg .rsi + 1) n := by
      apply read_congr
      intro i hi
      rw [hmem, Function.update_of_ne]
      rw [add_one_add_cast]
      have hsafe := h 0 (i + 1) (by omega) (by omega)
      simpa using hsafe.symm
    have hdf' : s.movsb.df = false := hdf
    rw [repMovsb, ih hdf' hnext, hrsi, hrdi, hread, read_succ, write_cons, hmem]

lemma repMovsb_keeps {α : Type*} {f : State → α} (hf : ∀ t : State, f t.movsb = f t) (n : ℕ)
    (s : State) : f (repMovsb n s) = f s := by
  induction n generalizing s with
  | zero => rfl
  | succ n ih => rw [repMovsb, ih, hf]

end Copy

/-! ## MEMCPY -/

section Memcpy

variable {img : Image} {base : BitVec 64} (P : Placed img base memcpyCode) (k : Kernel)
include P

lemma memcpy_run {s : State} (hrip : s.rip = base) :
    ∃ a, run img k 3 s =
      some ((repMovsb (s.reg .rcx).toNat { s with df := false }).goto a).popRet := by
  have hops := P.run_ops k [.cld, .repMovsb] (i := 0) (s := s) rfl (hrip.trans P.addr_zero.symm)
  have hret := P.step_ret k (i := 0 + 2) (s := (execOps [.cld, .repMovsb] s).goto (P.addr (0 + 2)))
    rfl rfl
  exact ⟨P.addr 2, run_trans hops (run_one hret)⟩

/-- Slot 400 returns with the original bytes of the source in the destination.  The return address
is read from the memory it leaves. -/
lemma memcpy_returns {s : State} (hrip : s.rip = base)
    (hsafe : ForwardSafe (s.reg .rdi) (s.reg .rsi) (s.reg .rcx).toNat) :
    ∃ s', run img k 3 s = some s' ∧
      s'.mem = s.mem.write (s.reg .rdi) (s.mem.read (s.reg .rsi) (s.reg .rcx).toNat) ∧
      (∀ r, r ∉ [Reg.rdi, Reg.rsi, Reg.rcx, Reg.rsp] → s'.reg r = s.reg r) ∧
      s'.zf = s.zf ∧ s'.trace = s.trace ∧
      s'.rip = load64 s'.mem (s.reg .rsp) ∧ s'.reg .rsp = s.reg .rsp + 8#64 := by
  obtain ⟨a, hrun⟩ := memcpy_run P k hrip
  have hmem := repMovsb_mem (s := { s with df := false }) (n := (s.reg .rcx).toNat) rfl hsafe
  have hreg : ∀ r, r ≠ .rdi → r ≠ .rsi → r ≠ .rcx →
      (repMovsb (s.reg .rcx).toNat { s with df := false }).reg r = s.reg r := by
    intro r hrdi hrsi hrcx
    exact repMovsb_keeps (f := fun t => t.reg r)
      (fun t => by simp [State.movsb, hrdi, hrsi, hrcx]) _ _
  have hrsp := hreg .rsp (by decide) (by decide) (by decide)
  have hzf : (repMovsb (s.reg .rcx).toNat { s with df := false }).zf = s.zf :=
    repMovsb_keeps (f := State.zf) (fun _ => rfl) _ _
  have htrace : (repMovsb (s.reg .rcx).toNat { s with df := false }).trace = s.trace :=
    repMovsb_keeps (f := State.trace) (fun _ => rfl) _ _
  refine ⟨_, hrun, ?_, ?_, ?_, ?_, ?_, ?_⟩
  · simpa using hmem
  · intro r hr
    simp only [List.mem_cons, List.not_mem_nil, or_false, not_or] at hr
    obtain ⟨hrdi, hrsi, hrcx, hrrsp⟩ := hr
    simp [hrrsp, hreg r hrdi hrsi hrcx]
  · simp [hzf]
  · simp [htrace]
  · simp [State.rip_popRet, hrsp]
  · simp [hrsp]

end Memcpy

/-! ## STRLEN -/

/-- The machine of slot 402, entered in `s`, with the first `n` bytes of the string behind it. -/
structure Scanned (s : State) (n : ℕ) (t : State) : Prop where
  rax : t.reg .rax = (n : BitVec 64)
  rdi : t.reg .rdi = s.reg .rdi
  rsp : t.reg .rsp = s.reg .rsp
  mem : t.mem = s.mem
  trace : t.trace = s.trace

section Strlen

variable {img : Image} {base : BitVec 64} (P : Placed img base strlenCode) (k : Kernel)

/-- The two lines behind the label test the byte at offset `rax`. -/
lemma Scanned.test {s t : State} {n : ℕ} (h : Scanned s n t) (hrip : t.rip = P.addr 1) :
    ∃ u, run img k 2 t = some u ∧ Scanned s n u ∧ u.rip = P.addr 4 ∧
      u.zf = (s.mem (s.reg .rdi + (n : BitVec 64)) == 0#8) := by
  have htop : P.addr 2 = P.addr 1 := P.addr_label 1 .start rfl
  have hops := P.run_ops k
    [.load8 .rcx (derefIndex .rdi .rax 1#64), .test8 .rcx .rcx] (i := 2) (s := t) rfl
    (hrip.trans htop.symm)
  refine ⟨_, hops, ⟨?_, ?_, ?_, h.mem, h.trace⟩, rfl, ?_⟩
  · simpa [execOps, Op.exec] using h.rax
  · simpa [execOps, Op.exec] using h.rdi
  · simpa [execOps, Op.exec] using h.rsp
  · simp [execOps, Op.exec, State.ea, derefIndex, h.rax, h.rdi, h.mem]

/-- A pass over a byte that is not zero: five instructions lead back to the label, with one more byte
counted. -/
lemma Scanned.pass {s t : State} {n : ℕ} (h : Scanned s n t) (hrip : t.rip = P.addr 1)
    (hbyte : s.mem (s.reg .rdi + (n : BitVec 64)) ≠ 0#8) :
    ∃ u, run img k 5 t = some u ∧ Scanned s (n + 1) u ∧ u.rip = P.addr 1 := by
  obtain ⟨u, hrun, hu, hripu, hzf⟩ := h.test P k hrip
  have hnot : ¬u.zf = true := by
    rw [hzf]
    simpa using hbyte
  have hjz := P.step_jz k (i := 4) (l := .end_) (s := u) rfl hripu
  rw [if_neg hnot] at hjz
  have hinc := P.step_op k (i := 5) (o := .inc64 .rax) (s := u.goto (P.addr 5)) rfl rfl
  have hjmp := P.step_jmp k (i := 6) (l := .start)
    (s := ((Op.inc64 .rax).exec (u.goto (P.addr 5))).goto (P.addr 6)) rfl rfl
  refine ⟨_, run_trans (run_trans (run_trans hrun (run_one hjz)) (run_one hinc)) (run_one hjmp),
    ⟨?_, ?_, ?_, hu.mem, hu.trace⟩, rfl⟩
  · simp [Op.exec, hu.rax]
  · simpa [Op.exec] using hu.rdi
  · simpa [Op.exec] using hu.rsp

/-- The passes over the bytes before the first zero, one after the other: the machine is at the label
again with all of them counted. -/
lemma strlen_scanned {s : State} (hrip : s.rip = base) {n : ℕ}
    (hbefore : ∀ i < n, s.mem (s.reg .rdi + (i : BitVec 64)) ≠ 0#8) :
    ∃ p t, run img k p s = some t ∧ Scanned s n t ∧ t.rip = P.addr 1 := by
  induction n with
  | zero =>
    have hops := P.run_ops k [.xor64 .rax .rax] (i := 0) (s := s) rfl
      (hrip.trans P.addr_zero.symm)
    refine ⟨_, _, hops, ⟨?_, ?_, ?_, rfl, rfl⟩, rfl⟩ <;> simp [execOps, Op.exec]
  | succ n ih =>
    obtain ⟨p, t, hrun, ht, hript⟩ := ih fun i hi => hbefore i (by omega)
    obtain ⟨u, hpass, hu, hripu⟩ := ht.pass P k hript (hbefore n (by omega))
    exact ⟨_, u, run_trans hrun hpass, hu, hripu⟩

include P in
/-- Slot 402 returns with the offset of the first zero byte, and with memory as it was. -/
lemma strlen_returns {s : State} (hrip : s.rip = base) {n : ℕ}
    (hzero : s.mem (s.reg .rdi + (n : BitVec 64)) = 0#8)
    (hbefore : ∀ i < n, s.mem (s.reg .rdi + (i : BitVec 64)) ≠ 0#8) :
    ∃ p s', run img k p s = some s' ∧ Returned s s' s.mem ∧ s'.reg .rax = (n : BitVec 64) := by
  obtain ⟨p, t, hrun, ht, hript⟩ := strlen_scanned P k hrip hbefore
  obtain ⟨u, htest, hu, hripu, hzf⟩ := ht.test P k hript
  have hset : u.zf = true := by
    rw [hzf, hzero]
    rfl
  have hjz := P.step_jz k (i := 4) (l := .end_) (s := u) rfl hripu
  rw [if_pos hset] at hjz
  have hend : P.addr (labelIndex strlenCode .end_) = P.addr 8 :=
    (P.addr_label 7 .end_ rfl).symm
  have hret := P.step_ret k (i := 8)
    (s := u.goto (P.addr (labelIndex strlenCode .end_))) rfl hend
  refine ⟨_, _, run_trans (run_trans (run_trans hrun htest) (run_one hjz)) (run_one hret),
    ⟨?_, ?_, ?_, ?_⟩, ?_⟩
  · simp [hu.mem]
  · simp [State.rip_popRet, hu.mem, hu.rsp]
  · simp [hu.rsp]
  · simp [hu.trace]
  · simp [hu.rax]

/-- A string with a zero byte has a first one, within the address space. -/
lemma exists_first_zero {m : Memory (BitVec 64)} {a : BitVec 64}
    (h : ∃ i : ℕ, m (a + (i : BitVec 64)) = 0#8) :
    ∃ n : ℕ, n < 2 ^ 64 ∧ m (a + (n : BitVec 64)) = 0#8 ∧
      ∀ i < n, m (a + (i : BitVec 64)) ≠ 0#8 := by
  classical
  have hfirst := Nat.find_spec h
  have hbefore : ∀ i < Nat.find h, m (a + (i : BitVec 64)) ≠ 0#8 := fun i hi => Nat.find_min h hi
  refine ⟨Nat.find h, ?_, hfirst, hbefore⟩
  by_contra hge
  have hwrap : ((Nat.find h - 2 ^ 64 : ℕ) : BitVec 64) = (Nat.find h : BitVec 64) := by
    apply BitVec.eq_of_toNat_eq
    rw [BitVec.natCast_eq_ofNat, BitVec.natCast_eq_ofNat, BitVec.toNat_ofNat, BitVec.toNat_ofNat]
    omega
  have hearlier := hbefore (Nat.find h - 2 ^ 64) (by omega)
  rw [hwrap] at hearlier
  exact hearlier hfirst

end Strlen

/-! ## The three of them -/

/-- The built-in functions in their slots, which are the three that `setup_builtin_functions` loads
them into. -/
structure Builtins (img : Image) (elements : BitVec 64) where
  memcpy : Placed img (elements + 400#64 * 0x100#64) memcpyCode
  memcmp : Placed img (elements + 401#64 * 0x100#64) memcmpCode
  strlen : Placed img (elements + 402#64 * 0x100#64) strlenCode

/-- **The built-in functions.**  `MEMCPY` copies the original bytes and changes nothing else when the
runs are apart, or the destination does not start above the source and the source does not wrap
around into it; `MEMCMP` decides whether the runs are equal; `STRLEN` finds the first zero byte. -/
theorem builtins_meet {img : Image} {elements : BitVec 64} (B : Builtins img elements) (k : Kernel)
    (s : State) :
    (s.rip = elements + 400#64 * 0x100#64 →
      Apart (s.reg .rdi) (s.reg .rcx).toNat (s.reg .rsi) (s.reg .rcx).toNat ∨
        s.reg .rdi ≤ s.reg .rsi ∧
          (s.reg .rsi).toNat + (s.reg .rcx).toNat ≤ 2 ^ 64 + (s.reg .rdi).toNat →
      ∃ n s', run img k n s = some s' ∧
        s'.mem.read (s.reg .rdi) (s.reg .rcx).toNat = s.mem.read (s.reg .rsi) (s.reg .rcx).toNat ∧
        (∀ a, (∀ i < (s.reg .rcx).toNat, s.reg .rdi + (i : BitVec 64) ≠ a) →
          s'.mem a = s.mem a) ∧
        (∀ r, r ∉ [Reg.rdi, Reg.rsi, Reg.rcx, Reg.rsp] → s'.reg r = s.reg r) ∧
        s'.zf = s.zf ∧ s'.trace = s.trace ∧
        s'.rip = load64 s'.mem (s.reg .rsp) ∧ s'.reg .rsp = s.reg .rsp + 8#64) ∧
    (s.rip = elements + 401#64 * 0x100#64 →
      ∃ n s', run img k n s = some s' ∧ Returned s s' s.mem ∧
        (s'.reg8 .rax = 1#8 ↔ ∀ i < (s.reg .rcx).toNat,
          s.mem (s.reg .rsi + (i : BitVec 64)) = s.mem (s.reg .rdi + (i : BitVec 64))) ∧
        (s'.reg8 .rax = 0#8 ↔ ∃ i < (s.reg .rcx).toNat,
          s.mem (s.reg .rsi + (i : BitVec 64)) ≠ s.mem (s.reg .rdi + (i : BitVec 64)))) ∧
    (s.rip = elements + 402#64 * 0x100#64 →
      (∃ i : ℕ, s.mem (s.reg .rdi + (i : BitVec 64)) = 0#8) →
      ∃ n s', run img k n s = some s' ∧ Returned s s' s.mem ∧
        s.mem (s.reg .rdi + s'.reg .rax) = 0#8 ∧
        ∀ i < (s'.reg .rax).toNat, s.mem (s.reg .rdi + (i : BitVec 64)) ≠ 0#8) := by
  refine ⟨?_, ?_, ?_⟩
  · intro hrip hregions
    have hsafe : ForwardSafe (s.reg .rdi) (s.reg .rsi) (s.reg .rcx).toNat := by
      rcases hregions with hapart | ⟨hle, hwrap⟩
      · exact forwardSafe_of_apart hapart
      · exact forwardSafe_of_le hle hwrap
    obtain ⟨s', hrun, hmem, hkept, hzf, htrace, hback, hrsp⟩ :=
      memcpy_returns B.memcpy k hrip hsafe
    refine ⟨3, s', hrun, ?_, ?_, hkept, hzf, htrace, hback, hrsp⟩
    · have hself := read_write_self s.mem (s.reg .rdi)
        (s.mem.read (s.reg .rsi) (s.reg .rcx).toNat)
        (offsetsDistinct _ (by simpa using (s.reg .rcx).isLt.le))
      rwa [length_read, ← hmem] at hself
    · intro a ha
      rw [hmem]
      exact write_apply_of_ne _ _ _ _ (by simpa using ha)
  · intro hrip
    obtain ⟨s', hrun, hback, hal⟩ := memcmp_returns B.memcmp k hrip
    have hpairs := read_eq_iff s.mem (s.reg .rsi) (s.reg .rdi) (s.reg .rcx).toNat
    refine ⟨5, s', hrun, hback, ?_, ?_⟩
    · rw [hal, ← hpairs]
      split_ifs with hequal <;> simp [hequal]
    · have hnot := not_congr hpairs
      push Not at hnot
      rw [hal, ← hnot]
      split_ifs with hequal <;> simp [hequal]
  · intro hrip hzero
    obtain ⟨n, hn, hbyte, hbefore⟩ := exists_first_zero hzero
    obtain ⟨p, s', hrun, hback, hrax⟩ := strlen_returns B.strlen k hrip hbyte hbefore
    refine ⟨p, s', hrun, hback, ?_, ?_⟩
    · rw [hrax]
      exact hbyte
    · intro i hi
      refine hbefore i (lt_of_lt_of_eq hi ?_)
      rw [hrax, BitVec.natCast_eq_ofNat, BitVec.toNat_ofNat, Nat.mod_eq_of_lt hn]

/-- `FUNC_MEMCPY`, and the two enumerators behind it. -/
def funcMemcpy : ℕ := 400

def funcMemcmp : ℕ := funcMemcpy + 1

def funcStrlen : ℕ := funcMemcpy + 2

/-- The built-in functions as the assembler is given them, each in its slot; any other slot returns at
once. -/
def builtinsCode : ℕ → Assembly
  | 400 => memcpyCode
  | 401 => memcmpCode
  | 402 => strlenCode
  | _ => [.instr .ret]

lemma length_builtinsCode (slot : ℕ) : (builtinsCode slot).length < 256 := by
  unfold builtinsCode
  split <;> decide

def placedBuiltins : Builtins (assembleSlots 256 0x100000#64 builtinsCode) 0x100000#64 where
  memcpy := placedSlot 256 _ builtinsCode funcMemcpy (length_builtinsCode _) (by decide)
  memcmp := placedSlot 256 _ builtinsCode funcMemcmp (length_builtinsCode _) (by decide)
  strlen := placedSlot 256 _ builtinsCode funcStrlen (length_builtinsCode _) (by decide)

/-- A caller of slot `slot` with the registers `reg` for its arguments. -/
def callerOf (slot : BitVec 64) (reg : Reg → BitVec 64) (m : Memory (BitVec 64)) : State where
  reg := reg
  zf := false
  df := false
  mem := m
  rip := 0x100000#64 + slot * 0x100#64
  trace := []

/-- The registers of a call on `count` bytes, as the comments of `server.c` assign them. -/
def argumentRegs (dst src count : BitVec 64) : Reg → BitVec 64
  | .rdi => dst
  | .rsi => src
  | .rcx => count
  | .rsp => 0x7ffff0#64
  | _ => 0#64

/-- The memory with the low byte of its address at each address. -/
def lowBytes : Memory (BitVec 64) := fun a => a.setWidth 8

/-- Three bytes moved one address down, over themselves: the regions overlap, and the copy still has
the bytes that were there before. -/
theorem builtins_meet_down : ∃ n s',
    run (assembleSlots 256 0x100000#64 builtinsCode)
      ⟨fun _ _ => 0#64, fun _ _ => 0#64, fun _ m => m⟩ n
      (callerOf 400#64 (argumentRegs 0x400000#64 0x400001#64 3#64) lowBytes) = some s' ∧
    s'.mem.read 0x400000#64 3 = [1#8, 2#8, 3#8] := by
  obtain ⟨n, s', hrun, hcopied, -⟩ := (builtins_meet placedBuiltins _
    (callerOf 400#64 (argumentRegs 0x400000#64 0x400001#64 3#64) lowBytes)).1 rfl
    (Or.inr (by decide))
  exact ⟨n, s', hrun, hcopied.trans (by decide)⟩

/-- A source that starts at the last address wraps around into its destination: the second byte
is overwritten before it is read. -/
theorem memcpy_wraps : ∃ s',
    run (assembleSlots 256 0x100000#64 builtinsCode)
      ⟨fun _ _ => 0#64, fun _ _ => 0#64, fun _ m => m⟩ 3
      (callerOf 400#64 (argumentRegs 0#64 (-1#64) 2#64) lowBytes) = some s' ∧
    0#64 ≤ -1#64 ∧
    s'.mem.read 0#64 2 ≠ lowBytes.read (-1#64) 2 := by
  obtain ⟨a, hrun⟩ := memcpy_run placedBuiltins.memcpy
    ⟨fun _ _ => 0#64, fun _ _ => 0#64, fun _ m => m⟩
    (s := callerOf 400#64 (argumentRegs 0#64 (-1#64) 2#64) lowBytes) rfl
  refine ⟨_, hrun, by decide, ?_⟩
  rw [State.mem_popRet, State.mem_goto]
  decide

end Whuctf.Client
