import Whuctf.Client.CipherRoutines
import Whuctf.Client.Validation

/-!
# The two verdicts agree

The client decides in slot 14.  It calls slot 13, which runs the cipher in place over the
masked reply, slot 11 on the first two blocks and slot 12 on the other two, and compares with
the answer in slot 7 through `rep cmpsb` (slot 401).  The server runs the inverse cipher over
the answer instead (`correct`).

`Loaded` says which code is in which slot and `Layout` which regions of memory are apart.  Each
of the four calls changes its own block and keeps the rest (`cipherCall_called`), so that slot
13 returns with `al` set to the server's verdict (`validation_returns`), and slot 14 branches on
it (`verdicts_agree`).

The routines are run on the machine of `Library/X86` at any placement of the slots, with the stack as
the client leaves it.  Nothing is assumed of what a system call does beyond that slot 14 makes one,
since only its number and arguments are in the statement.
-/

namespace Whuctf.Client

open X86 Memory

/-! ## The comparison routine -/

/-- Slot 401 returns with `al` saying whether the two runs of `rcx` bytes are equal. -/
lemma memcmp_returns {img : Image} {base : BitVec 64} (P : Placed img base memcmpCode)
    (k : Kernel) {s : State} (hrip : s.rip = base) :
    ∃ s', run img k 5 s = some s' ∧ Returned s s' s.mem ∧
      s'.reg8 .rax = if s.mem.read (s.reg .rsi) (s.reg .rcx).toNat =
        s.mem.read (s.reg .rdi) (s.reg .rcx).toNat then 1#8 else 0#8 := by
  have hops := P.run_ops k [.cld, .cmp64 .rcx .rcx, .repCmpsb, .setz .rax] (i := 0) (s := s)
    rfl (hrip.trans P.addr_zero.symm)
  have hret := P.step_ret k (i := 0 + 4) (s := (execOps
    [.cld, .cmp64 .rcx .rcx, .repCmpsb, .setz .rax] s).goto (P.addr (0 + 4))) rfl rfl
  set t := (({ s with df := false } : State).setZf (s.reg .rcx == s.reg .rcx)) with ht
  set n := (s.reg .rcx).toNat
  have hexec : execOps [.cld, .cmp64 .rcx .rcx, .repCmpsb, .setz .rax] s =
      (repCmpsb n t).setReg8 .rax (if (repCmpsb n t).zf then 1#8 else 0#8) := rfl
  have hmem : (repCmpsb n t).mem = s.mem :=
    repCmpsb_keeps t (f := State.mem) State.mem_cmpsb n
  have hrsp : (repCmpsb n t).reg .rsp = s.reg .rsp :=
    repCmpsb_keeps t (f := fun u => u.reg .rsp) State.rsp_cmpsb n
  have htrace : (repCmpsb n t).trace = s.trace :=
    repCmpsb_keeps t (f := State.trace) State.trace_cmpsb n
  have hzf := repCmpsb_zf t n rfl (by simp [ht])
  rw [hexec] at hops hret
  refine ⟨_, run_trans hops (run_one hret), ⟨?_, ?_, ?_, ?_⟩, ?_⟩
  · simp [hmem]
  · simp [State.rip_popRet, hmem, hrsp]
  · simp [hrsp]
  · simp [htrace]
  · simp only [State.reg8_popRet, State.reg8_goto, State.reg8_setReg8_self, hzf, ne_eq,
      reduceCtorEq, not_false_eq_true, decide_eq_true_eq]
    rfl

/-! ## The calls of the cipher

The four calls differ in the slot they call and the block they work on.  So there is one invariant,
`Called`, indexed by the number of calls made, and one lemma that takes it from `n` to `n + 1`. -/

/-- The machine code in the slots of the check-in program: those that the verdict depends on, each at
the address of its slot. -/
structure Loaded (img : Image) (elements glob : BitVec 64) where
  encrypt : Placed img (elements + 11#64 * 0x100#64) encryptCode
  decrypt : Placed img (elements + 12#64 * 0x100#64) decryptCode
  validation : Placed img (elements + 13#64 * 0x100#64) (validationCode elements glob)
  main : Placed img (elements + 14#64 * 0x100#64) (mainCode elements)
  memcmp : Placed img (elements + 401#64 * 0x100#64) memcmpCode

/-- The sixteen bytes of stack the program pushes to and the eight above them, from `low` on,
are apart from the buffer and the two data slots, and these from each other. -/
structure Layout (elements glob low : BitVec 64) : Prop where
  stack_glob : Apart low 24 glob 32
  stack_answer : Apart low 24 (elements + 0x700#64) 32
  stack_key : Apart low 24 (elements + 0x800#64) 16
  glob_answer : Apart glob 32 (elements + 0x700#64) 32
  glob_key : Apart glob 32 (elements + 0x800#64) 16

/-- The push at the bottom of the stack region leaves what lies above it alone. -/
lemma stack_above (low : BitVec 64) : Apart low 8 (low + 8#64) 16 := by
  have hapart := (offsetsDistinct low (n := 24) (by decide)).apart (i := 0) (k := 8) (j := 8)
    (l := 16) (by omega) (by omega) (by omega)
  rwa [Nat.cast_zero, add_zero] at hapart

/-- The cipher the client runs on block `j` of the reply: encryption on the first two blocks,
decryption on the others. -/
def checkWords (key : ℕ → BitVec 32) (j : ℕ) : BitVec 32 × BitVec 32 → BitVec 32 × BitVec 32 :=
  if j < 2 then encryptWords key else decryptWords key

/-- A routine that runs `cipher` in place over the block at `rdi`, with the key at `rsi`, and returns
with the stack as it was.  Slots 11 and 12 are of this kind, with the two directions of the cipher. -/
def RunsCipher (img : Image) (k : Kernel) (entry : BitVec 64)
    (cipher : (ℕ → BitVec 32) → BitVec 32 × BitVec 32 → BitVec 32 × BitVec 32) : Prop :=
  ∀ s : State, Apart (s.reg .rdi) 8 (s.reg .rsp) 8 → s.rip = entry →
    ∃ n s', run img k n s = some s' ∧ Returned s s' (storeBlock s.mem (s.reg .rdi)
      (cipher (keyAt s.mem (s.reg .rsi)) (loadBlock s.mem (s.reg .rdi))))

/-- Slot 13 after `n` of its calls, entered in `s₀`: the first `n` blocks have been run through
the cipher, and everything else it reads is as on entry. -/
structure Called (elements glob : BitVec 64) (s₀ : State) (n : ℕ) (s : State) : Prop where
  block : ∀ j < 4, loadBlock s.mem (glob + ((8 * j : ℕ) : BitVec 64)) =
    (if j < n then checkWords (keyAt s₀.mem (elements + 0x800#64)) j else id)
      (loadBlock s₀.mem (glob + ((8 * j : ℕ) : BitVec 64)))
  key : s.mem.read (elements + 0x800#64) 16 = s₀.mem.read (elements + 0x800#64) 16
  answer : s.mem.read (elements + 0x700#64) 32 = s₀.mem.read (elements + 0x700#64) 32
  ret : s.mem.read (s₀.reg .rsp) 16 = s₀.mem.read (s₀.reg .rsp) 16
  rsp : s.reg .rsp = s₀.reg .rsp
  trace : s.trace = s₀.trace

/-- Pushing a return address at `low` and rewriting block `n` turns `n` calls into `n + 1`. -/
lemma Called.advance {elements glob low : BitVec 64} (L : Layout elements glob low)
    {s₀ s s' : State} {n : ℕ} (hn : n < 4) (h : Called elements glob s₀ n s)
    (hstack : s₀.reg .rsp = low + 8#64) (next : BitVec 64)
    {cipher : (ℕ → BitVec 32) → BitVec 32 × BitVec 32 → BitVec 32 × BitVec 32}
    (hcipher : ∀ key key', (∀ i < 4, key i = key' i) → cipher key = checkWords key' n)
    (hmem : s'.mem =
      storeBlock (store64 s.mem low next) (glob + ((8 * n : ℕ) : BitVec 64))
        (cipher (keyAt (store64 s.mem low next) (elements + 0x800#64))
          (loadBlock (store64 s.mem low next) (glob + ((8 * n : ℕ) : BitVec 64)))))
    (hrsp : s'.reg .rsp = s.reg .rsp) (htrace : s'.trace = s.trace) :
    Called elements glob s₀ (n + 1) s' := by
  set m := store64 s.mem low next with hm
  set b : BitVec 64 := glob + ((8 * n : ℕ) : BitVec 64) with hb
  -- the push changes nothing that is read
  have hpush : ∀ {c : BitVec 64} {l : ℕ}, Apart low 8 c l → m.read c l = s.mem.read c l :=
    fun hapart => read_write_of_apart _ _ _ _ _ hapart
  have hkey : m.read (elements + 0x800#64) 16 = s₀.mem.read (elements + 0x800#64) 16 :=
    (hpush (L.stack_key.mono (by decide) (by decide))).trans h.key
  have hblock : ∀ j < 4, loadBlock m (glob + ((8 * j : ℕ) : BitVec 64)) =
      loadBlock s.mem (glob + ((8 * j : ℕ) : BitVec 64)) := by
    intro j hj
    exact loadBlock_congr (hpush ((L.stack_glob.mono (by decide) le_rfl).inside (by omega)))
  -- the store changes block `n` only
  have hstore : ∀ {c : BitVec 64} {l : ℕ}, Apart b 8 c l → s'.mem.read c l = m.read c l := by
    intro c l hapart
    rw [hmem]
    exact read_storeBlock_of_apart m b c _ hapart
  have hinside : ∀ {c : BitVec 64} {l : ℕ}, Apart glob 32 c l → Apart b 8 c l :=
    fun hapart => (hapart.symm.inside (by omega)).symm
  refine ⟨?_, ?_, ?_, ?_, hrsp.trans h.rsp, htrace.trans h.trace⟩
  · intro j hj
    by_cases hjn : j = n
    · subst hjn
      rw [hmem, loadBlock_storeBlock_self m b _ (offsetsDistinct b (by decide)),
        hcipher _ _ (keyAt_congr hkey), hblock j hj, h.block j hj, if_neg (by omega),
        if_pos (by omega)]
      rfl
    · have happart : Apart b 8 (glob + ((8 * j : ℕ) : BitVec 64)) 8 :=
        (offsetsDistinct glob (n := 32) (by decide)).apart (by omega) (by omega) (by omega)
      rw [loadBlock_congr (hstore happart), hblock j hj, h.block j hj]
      have hiff : j < n ↔ j < n + 1 := by omega
      simp only [hiff]
  · rw [hstore (hinside L.glob_key), hkey]
  · rw [hstore (hinside L.glob_answer), hpush (L.stack_answer.mono (by decide) le_rfl), h.answer]
  · have hstackGlob : Apart glob 32 (s₀.reg .rsp) 16 := by
      rw [hstack]
      exact L.stack_glob.symm.inside (by decide)
    have hlow : Apart low 8 (s₀.reg .rsp) 16 := by
      rw [hstack]
      exact stack_above low
    rw [hstore (hinside hstackGlob), hpush hlow, h.ret]

/-- Memory apart from the reply and from the return address pushed at `low` is as it was. -/
def Keeps (glob low : BitVec 64) (m m' : Memory (BitVec 64)) : Prop :=
  ∀ b l, Apart low 8 b l → Apart glob 32 b l → m'.read b l = m.read b l

lemma Keeps.trans {glob low : BitVec 64} {m m' m'' : Memory (BitVec 64)} (h : Keeps glob low m m')
    (h' : Keeps glob low m' m'') : Keeps glob low m m'' :=
  fun b l hstack hglob => (h' b l hstack hglob).trans (h b l hstack hglob)

/-- Call `n` of slot 13, from the first of its four lines to the line behind the call. -/
lemma cipherCall_runs {img : Image} {elements glob low : BitVec 64} (k : Kernel)
    (P : Placed img (elements + 13#64 * 0x100#64) (validationCode elements glob))
    (L : Layout elements glob low) {slot : BitVec 64} {n : ℕ} (hn : n < 4)
    {rest : Assembly}
    (hcode : (validationCode elements glob).drop (4 * n) =
      ops (cipherCall elements glob slot ((8 * n : ℕ) : BitVec 64)) ++
        .instr (.call .rax) :: rest)
    {cipher : (ℕ → BitVec 32) → BitVec 32 × BitVec 32 → BitVec 32 × BitVec 32}
    (hroutine : RunsCipher img k (elements + slot * 0x100#64) cipher)
    {s : State} (hstack : s.reg .rsp = low + 8#64) (hrip : s.rip = P.addr (4 * n)) :
    ∃ p s' next, run img k p s = some s' ∧ s'.rip = P.addr (4 * (n + 1)) ∧
      s'.mem = storeBlock (store64 s.mem low next) (glob + ((8 * n : ℕ) : BitVec 64))
        (cipher (keyAt (store64 s.mem low next) (elements + 0x800#64))
          (loadBlock (store64 s.mem low next) (glob + ((8 * n : ℕ) : BitVec 64)))) ∧
      s'.reg .rsp = s.reg .rsp ∧ s'.trace = s.trace := by
  have hops := P.run_ops k _ hcode hrip
  set t := (execOps (cipherCall elements glob slot ((8 * n : ℕ) : BitVec 64)) s).goto
    (P.addr (4 * n + 3)) with ht
  have hcallLine : (validationCode elements glob)[4 * n + 3]? = some (.instr (.call .rax)) := by
    have hget := congrArg (·[3]?) hcode
    simpa [ops, cipherCall] using hget
  have hcall := P.step_call k (s := t) hcallLine rfl
  set u := t.pushCall (P.addr (4 * n + 3 + 1)) (t.reg .rax) with hu
  -- the callee's registers, stack and memory
  have hrax : t.reg .rax = elements + slot * 0x100#64 := by
    simp [ht, execOps, cipherCall, Op.exec]
  have hrdi : u.reg .rdi = glob + ((8 * n : ℕ) : BitVec 64) := by
    simp [hu, ht, execOps, cipherCall, Op.exec]
  have hrsi : u.reg .rsi = elements + 0x800#64 := by
    simp [hu, ht, execOps, cipherCall, Op.exec]
  have hrspCaller : t.reg .rsp = low + 8#64 := hstack
  have hrsp : u.reg .rsp = low := by
    rw [hu, State.rsp_pushCall, hrspCaller, BitVec.add_sub_cancel]
  have hmem : u.mem = store64 s.mem low (P.addr (4 * n + 3 + 1)) := by
    rw [hu, State.mem_pushCall, hrspCaller, BitVec.add_sub_cancel]
    rfl
  have happart : Apart (u.reg .rdi) 8 (u.reg .rsp) 8 := by
    rw [hrdi, hrsp]
    exact ((L.stack_glob.mono (by decide) le_rfl).inside (by omega)).symm
  obtain ⟨p, s', hrun, hback⟩ := hroutine u happart hrax
  refine ⟨_, s', P.addr (4 * n + 3 + 1), run_trans (run_trans hops (run_one hcall)) hrun, ?_, ?_,
    ?_, ?_⟩
  · rw [hback.rip, hrsp, hmem, load64_store64]
    rfl
  · rw [hback.mem, hrdi, hrsi, hmem]
  · rw [hback.rsp, hrsp, hstack]
  · rw [hback.trace]
    rfl

/-- The same in terms of the calls made so far: with the next one, one more block has been ciphered. -/
lemma cipherCall_called {img : Image} {elements glob low : BitVec 64} (k : Kernel)
    (P : Placed img (elements + 13#64 * 0x100#64) (validationCode elements glob))
    (L : Layout elements glob low) {slot : BitVec 64} {n : ℕ} (hn : n < 4)
    {rest : Assembly}
    (hcode : (validationCode elements glob).drop (4 * n) =
      ops (cipherCall elements glob slot ((8 * n : ℕ) : BitVec 64)) ++
        .instr (.call .rax) :: rest)
    {cipher : (ℕ → BitVec 32) → BitVec 32 × BitVec 32 → BitVec 32 × BitVec 32}
    (hroutine : RunsCipher img k (elements + slot * 0x100#64) cipher)
    (hcipher : ∀ key key', (∀ i < 4, key i = key' i) → cipher key = checkWords key' n)
    {s₀ s : State} (hstack : s₀.reg .rsp = low + 8#64) (h : Called elements glob s₀ n s)
    (hkeeps : Keeps glob low s₀.mem s.mem) (hrip : s.rip = P.addr (4 * n)) :
    ∃ p s', run img k p s = some s' ∧ Called elements glob s₀ (n + 1) s' ∧
      Keeps glob low s₀.mem s'.mem ∧ s'.rip = P.addr (4 * (n + 1)) := by
  obtain ⟨p, s', next, hrun, hrip', hmem, hrsp, htrace⟩ :=
    cipherCall_runs k P L hn hcode hroutine (h.rsp.trans hstack) hrip
  refine ⟨p, s', hrun, h.advance L hn hstack next hcipher hmem hrsp htrace,
    hkeeps.trans fun b l hpush hglob => ?_, hrip'⟩
  have hblock : Apart (glob + ((8 * n : ℕ) : BitVec 64)) 8 b l :=
    (hglob.symm.inside (by omega)).symm
  rw [hmem, read_storeBlock_of_apart _ _ _ _ hblock]
  exact read_write_of_apart _ _ _ _ _ hpush

lemma encrypt_runsCipher {img : Image} {base : BitVec 64} (P : Placed img base encryptCode)
    (k : Kernel) : RunsCipher img k base encryptWords := by
  intro s happart hrip
  exact ⟨_, encrypt_returns P k happart hrip⟩

lemma decrypt_runsCipher {img : Image} {base : BitVec 64} (P : Placed img base decryptCode)
    (k : Kernel) : RunsCipher img k base decryptWords := by
  intro s happart hrip
  exact ⟨_, decrypt_returns P k happart hrip⟩

/-! ## Slot 13

The routine compares bytes, the statement about it speaks of blocks.  `Accepts` is the client's test as
it is made, each block run through the cipher and compared with a block of the answer. -/

/-- The four calls of slot 13, one after the other, with everything they change in `Called`. -/
lemma validation_called {img : Image} {elements glob low : BitVec 64} (k : Kernel)
    (C : Loaded img elements glob) (L : Layout elements glob low) {s : State}
    (hstack : s.reg .rsp = low + 8#64) (hrip : s.rip = elements + 13#64 * 0x100#64) :
    ∃ p s', run img k p s = some s' ∧ Called elements glob s 4 s' ∧
      Keeps glob low s.mem s'.mem ∧ s'.rip = C.validation.addr 16 := by
  have hstart : Called elements glob s 0 s :=
    ⟨fun j _ => by simp, rfl, rfl, rfl, rfl, rfl⟩
  have hkeeps : Keeps glob low s.mem s.mem := fun _ _ _ _ => rfl
  have henc := encrypt_runsCipher C.encrypt k
  have hdec := decrypt_runsCipher C.decrypt k
  have hencCongr : ∀ n < 2, ∀ key key' : ℕ → BitVec 32, (∀ i < 4, key i = key' i) →
      encryptWords key = checkWords key' n := by
    intro n hn key key' hkey
    rw [checkWords, if_pos hn, encryptWords_congr hkey]
  have hdecCongr : ∀ n, ¬n < 2 → ∀ key key' : ℕ → BitVec 32, (∀ i < 4, key i = key' i) →
      decryptWords key = checkWords key' n := by
    intro n hn key key' hkey
    rw [checkWords, if_neg hn, decryptWords_congr hkey]
  obtain ⟨p₁, s₁, hrun₁, h₁, hkeeps₁, hrip₁⟩ := cipherCall_called k C.validation L (n := 0)
    (by decide) rfl henc (hencCongr 0 (by decide)) hstack hstart hkeeps
    (hrip.trans C.validation.addr_zero.symm)
  obtain ⟨p₂, s₂, hrun₂, h₂, hkeeps₂, hrip₂⟩ := cipherCall_called k C.validation L (n := 1)
    (by decide) rfl henc (hencCongr 1 (by decide)) hstack h₁ hkeeps₁ hrip₁
  obtain ⟨p₃, s₃, hrun₃, h₃, hkeeps₃, hrip₃⟩ := cipherCall_called k C.validation L (n := 2)
    (by decide) rfl hdec (hdecCongr 2 (by decide)) hstack h₂ hkeeps₂ hrip₂
  obtain ⟨p₄, s₄, hrun₄, h₄, hkeeps₄, hrip₄⟩ := cipherCall_called k C.validation L (n := 3)
    (by decide) rfl hdec (hdecCongr 3 (by decide)) hstack h₃ hkeeps₃ hrip₃
  exact ⟨_, s₄, run_trans (run_trans (run_trans hrun₁ hrun₂) hrun₃) hrun₄, h₄, hkeeps₄, hrip₄⟩

/-- The client's test: every block of the reply, run through the cipher, is the block of the
answer. -/
def Accepts (m : Memory (BitVec 64)) (elements glob : BitVec 64) : Prop :=
  ∀ j < 4, checkWords (keyAt m (elements + 0x800#64)) j
      (loadBlock m (glob + ((8 * j : ℕ) : BitVec 64))) =
    loadBlock m (elements + 0x700#64 + ((8 * j : ℕ) : BitVec 64))

/-- After the four calls the buffer is the answer when the client's test holds. -/
lemma Called.read_eq_iff {elements glob : BitVec 64} {s₀ s : State}
    (h : Called elements glob s₀ 4 s) :
    s.mem.read glob 32 = s.mem.read (elements + 0x700#64) 32 ↔
      Accepts s₀.mem elements glob := by
  rw [h.answer, read_eq_iff_blocks]
  apply forall₂_congr
  intro j hj
  rw [h.block j hj, if_pos hj]

open Classical in
/-- **Slot 13.**  The routine returns with the client's test in `al`, and memory apart from the reply
and the stack below its frame as it was. -/
lemma validation_keeps {img : Image} {elements glob low : BitVec 64} (k : Kernel)
    (C : Loaded img elements glob) (L : Layout elements glob low) {s : State}
    (hstack : s.reg .rsp = low + 8#64) (hrip : s.rip = elements + 13#64 * 0x100#64) :
    ∃ p s', run img k p s = some s' ∧ s'.rip = load64 s.mem (s.reg .rsp) ∧
      s'.trace = s.trace ∧
      s'.reg8 .rax = (if Accepts s.mem elements glob then 1#8 else 0#8) ∧
      s'.reg .rsp = s.reg .rsp + 8#64 ∧ Keeps glob low s.mem s'.mem := by
  obtain ⟨p, t, hrun, hcalled, hkeeps, htrip⟩ := validation_called k C L hstack hrip
  have hops := C.validation.run_ops k (compareCall elements glob) (i := 16) rfl htrip
  set u := (execOps (compareCall elements glob) t).goto (C.validation.addr (16 + 4)) with hu
  have hcall := C.validation.step_call k (i := 20) (r := .rax) (s := u) rfl rfl
  set v := u.pushCall (C.validation.addr (20 + 1)) (u.reg .rax) with hv
  have hrax : u.reg .rax = elements + 401#64 * 0x100#64 := by
    simp [hu, execOps, compareCall, Op.exec]
  have hrspCaller : u.reg .rsp = low + 8#64 := by
    rw [← hstack, ← hcalled.rsp]
    rfl
  have hrsp : v.reg .rsp = low := by
    rw [hv, State.rsp_pushCall, hrspCaller, BitVec.add_sub_cancel]
  have hmem : v.mem = store64 t.mem low (C.validation.addr (20 + 1)) := by
    rw [hv, State.mem_pushCall, hrspCaller, BitVec.add_sub_cancel]
    rfl
  have hpush : ∀ {c : BitVec 64} {l : ℕ}, Apart low 8 c l → v.mem.read c l = t.mem.read c l := by
    intro c l happart
    rw [hmem]
    exact read_write_of_apart _ _ _ _ _ happart
  have hrsi : v.reg .rsi = glob := by
    simp [hv, hu, execOps, compareCall, Op.exec]
  have hrdi : v.reg .rdi = elements + 0x700#64 := by
    simp [hv, hu, execOps, compareCall, Op.exec]
  have hrcx : (v.reg .rcx).toNat = 32 := by
    simp [hv, hu, execOps, compareCall, Op.exec]
  obtain ⟨w, hcompare, hback, hal⟩ := memcmp_returns C.memcmp k (s := v) hrax
  have hwrip : w.rip = C.validation.addr 21 := by
    rw [hback.rip, hrsp, hmem, load64_store64]
  have hwrsp : w.reg .rsp = s.reg .rsp := by
    rw [hback.rsp, hrsp, hstack]
  have hret := C.validation.step_ret k (i := 21) (s := w) rfl hwrip
  refine ⟨_, _, run_trans (run_trans (run_trans hrun hops) (run_one hcall))
    (run_trans hcompare (run_one hret)), ?_, ?_, ?_, ?_, hkeeps.trans fun b l hstack _ => ?_⟩
  · rw [State.rip_popRet, hwrsp, hback.mem]
    refine load64_congr ((hpush ?_).trans ?_)
    · rw [hstack]
      exact (stack_above low).mono le_rfl (by decide)
    · have hsame := read_eq_of_read_eq (i := 0) (k := 8) hcalled.ret (by decide)
      rwa [Nat.cast_zero, add_zero] at hsame
  · rw [State.trace_popRet, hback.trace]
    exact hcalled.trace
  · rw [State.reg8_popRet _ _ (by decide), hal, hrsi, hrdi, hrcx,
      hpush (L.stack_glob.mono (by decide) le_rfl),
      hpush (L.stack_answer.mono (by decide) le_rfl)]
    exact if_congr hcalled.read_eq_iff rfl rfl
  · rw [State.rsp_popRet, hwrsp]
  · rw [State.mem_popRet, hback.mem]
    exact hpush hstack

open Classical in
lemma validation_returns {img : Image} {elements glob low : BitVec 64} (k : Kernel)
    (C : Loaded img elements glob) (L : Layout elements glob low) {s : State}
    (hstack : s.reg .rsp = low + 8#64) (hrip : s.rip = elements + 13#64 * 0x100#64) :
    ∃ p s', run img k p s = some s' ∧ s'.rip = load64 s.mem (s.reg .rsp) ∧
      s'.trace = s.trace ∧
      s'.reg8 .rax = if Accepts s.mem elements glob then 1#8 else 0#8 := by
  obtain ⟨p, s', hrun, hback, htrace, hal, -⟩ := validation_keeps k C L hstack hrip
  exact ⟨p, s', hrun, hback, htrace, hal⟩

/-! ## Slot 14

The client runs the cipher forward over the reply, the server backward over the answer.  That the tests
are the same is that the two directions undo each other on every block (`checkWords_eq_iff`). -/

lemma checkWords_eq_iff (key : ℕ → BitVec 32) (j : ℕ) (x a : BitVec 32 × BitVec 32) :
    checkWords key j x = a ↔ solveWords key j a = x := by
  unfold checkWords solveWords
  by_cases hj : j < 2
  · rw [if_pos hj, if_pos hj]
    constructor
    · intro h
      rw [← h, decryptWords_encryptWords]
    · intro h
      rw [← h, encryptWords_decryptWords]
  · rw [if_neg hj, if_neg hj]
    constructor
    · intro h
      rw [← h, encryptWords_decryptWords]
    · intro h
      rw [← h, decryptWords_encryptWords]

lemma solveWords_congr {key key' : ℕ → BitVec 32} (h : ∀ i < 4, key i = key' i) (j : ℕ) :
    solveWords key j = solveWords key' j := by
  rw [solveWords, solveWords, encryptWords_congr h, decryptWords_congr h]

/-- On the same key, answer and masked reply the client's test and the server's agree. -/
lemma accepts_iff_correct {m : Memory (BitVec 64)} {elements glob : BitVec 64}
    {key answer : List Byte} {g : Element} (hkey : m.read (elements + 0x800#64) 16 = key)
    (hanswer : m.read (elements + 0x700#64) 32 = answer)
    (hglob : m.read glob 32 = g.toList.take 32) :
    Accepts m elements glob ↔ correct key answer g = true := by
  have hkeyObject : m.read (elements + 0x800#64) 16 = (object key).read 0 16 := by
    rw [read_object_self (by rw [← hkey, length_read]), hkey]
  have hanswerObject : m.read (elements + 0x700#64) 32 = (object answer).read 0 32 := by
    rw [read_object_self (by rw [← hanswer, length_read]), hanswer]
  have hglobObject : m.read glob 32 = (object g.toList).read 0 32 := by
    rw [← toList_take_eq_read, hglob]
  rw [correct_iff]
  apply forall₂_congr
  intro j hj
  have ha : loadBlock m (elements + 0x700#64 + ((8 * j : ℕ) : BitVec 64)) =
      loadBlock (object answer) (8 * j) := by
    have hread := read_eq_of_read_eq hanswerObject (i := 8 * j) (k := 8) (by omega)
    rw [Nat.cast_id, Nat.zero_add] at hread
    exact loadBlock_congr hread
  have hx : loadBlock m (glob + ((8 * j : ℕ) : BitVec 64)) =
      loadBlock (object g.toList) (8 * j) := by
    have hread := read_eq_of_read_eq hglobObject (i := 8 * j) (k := 8) (by omega)
    rw [Nat.cast_id, Nat.zero_add] at hread
    exact loadBlock_congr hread
  rw [checkWords_eq_iff, ha, hx, solveWords_congr (keyAt_congr hkeyObject) j]

/-- The call slot 14 prints a verdict with: 49 bytes of slot 200, or 48 bytes of slot 300. -/
def verdictCall (elements : BitVec 64) (right : Bool) : Syscall :=
  { number := 1#64, arg0 := 1#64,
    arg1 := elements + (if right then 200#64 else 300#64) * 0x100#64,
    arg2 := if right then 49#64 else 48#64 }

/-- The label slot 14 branches to, by the result of slot 13. -/
def verdictLabel (right : Bool) : Label := if right then .right else .wrong

/-- The lines of slot 14 that print a slot: a `write` to the standard output is called, with the slot
and the length that are given. -/
lemma printCall_prints {img : Image} {elements slot len : BitVec 64} (k : Kernel)
    (P : Placed img (elements + 14#64 * 0x100#64) (mainCode elements)) {i : ℕ} {rest : Assembly}
    (hcode : (mainCode elements).drop i =
      ops (printCall elements slot len) ++ .instr .syscall :: rest)
    {s : State} (hrip : s.rip = P.addr i) :
    ∃ s', run img k 5 s = some s' ∧
      s'.trace = s.trace ++ [⟨1#64, 1#64, elements + slot * 0x100#64, len⟩] := by
  have hline : (mainCode elements)[i + 4]? = some (.instr .syscall) := by
    have hget := congrArg (·[4]?) hcode
    simpa [ops, printCall] using hget
  have hops := P.run_ops k (printCall elements slot len) hcode hrip
  set t := (execOps (printCall elements slot len) s).goto (P.addr (i + 4)) with ht
  have hcall : t.call = ⟨1#64, 1#64, elements + slot * 0x100#64, len⟩ := by
    simp [ht, State.call, execOps, printCall, Op.exec]
  have hsys := P.step_eq k (s := t) hline rfl
  refine ⟨_, run_trans hops (run_one hsys), ?_⟩
  rw [← hcall]
  rfl

/-- From the label of a verdict slot 14 prints its message, with a single `write`. -/
lemma main_prints {img : Image} {elements : BitVec 64} (k : Kernel)
    (P : Placed img (elements + 14#64 * 0x100#64) (mainCode elements)) (right : Bool) {s : State}
    (hrip : s.rip = P.addr (labelIndex (mainCode elements) (verdictLabel right))) :
    ∃ s', run img k 5 s = some s' ∧ s'.trace = s.trace ++ [verdictCall elements right] := by
  cases right with
  | false =>
      have hlabel : P.addr 5 = P.addr 4 := P.addr_label 4 .wrong rfl
      exact printCall_prints k P (i := 5) rfl (hrip.trans hlabel.symm)
  | true =>
      have hlabel : P.addr 12 = P.addr 11 := P.addr_label 11 .right rfl
      exact printCall_prints k P (i := 12) rfl (hrip.trans hlabel.symm)

/-- The branch of slot 14 on the result of slot 13: the label it comes to is that of the verdict in
`al`, and nothing else has changed. -/
lemma main_jumps {img : Image} {elements : BitVec 64} (k : Kernel)
    (P : Placed img (elements + 14#64 * 0x100#64) (mainCode elements)) (right : Bool) {s : State}
    (hrip : s.rip = P.addr 2) (hal : s.reg8 .rax = if right = true then 1#8 else 0#8) :
    ∃ p t, run img k p s = some t ∧
      t.rip = P.addr (labelIndex (mainCode elements) (verdictLabel right)) ∧ t.trace = s.trace ∧
      t.mem = s.mem ∧ t.reg .rsp = s.reg .rsp := by
  have htest := P.run_ops k [.test8 .rax .rax] (i := 2) rfl hrip
  set u := (execOps [.test8 .rax .rax] s).goto (P.addr (2 + 1)) with hu
  have hjump := P.step_jnz k (i := 3) (l := .right) (s := u) rfl rfl
  have hzf : u.zf = !right := by
    have hset : u.zf = ((s.reg8 .rax &&& s.reg8 .rax) == 0#8) := rfl
    rw [hset, hal]
    cases right with
    | false => rfl
    | true => rfl
  refine ⟨_, _, run_trans htest (run_one hjump), ?_, rfl, rfl, rfl⟩
  rw [State.rip_goto, hzf]
  cases right with
  | false => rfl
  | true => rfl

lemma main_branches {img : Image} {elements : BitVec 64} (k : Kernel)
    (P : Placed img (elements + 14#64 * 0x100#64) (mainCode elements)) (right : Bool) {s : State}
    (hrip : s.rip = P.addr 2) (hal : s.reg8 .rax = if right = true then 1#8 else 0#8) :
    ∃ p t, run img k p s = some t ∧
      t.rip = P.addr (labelIndex (mainCode elements) (verdictLabel right)) ∧ t.trace = s.trace := by
  obtain ⟨p, t, hrun, hlabel, htrace, -⟩ := main_jumps k P right hrip hal
  exact ⟨p, t, hrun, hlabel, htrace⟩

/-- **The two verdicts agree.**  Slot 14, entered with the answer and the key in slots 7 and 8
and the masked reply in the buffer, branches to `right` when the server sets `correct` and to
`wrong` when it does not, and prints the message of that branch. -/
theorem verdicts_agree {img : Image} {elements glob : BitVec 64} (k : Kernel)
    (C : Loaded img elements glob) {s : State} (L : Layout elements glob (s.reg .rsp - 16#64))
    (hrip : s.rip = elements + 14#64 * 0x100#64) (key answer : List Byte) (reply : Element)
    (hkey : s.mem.read (elements + 0x800#64) 16 = key)
    (hanswer : s.mem.read (elements + 0x700#64) 32 = answer)
    (hglob : s.mem.read glob 256 = (maskReply reply).toList) :
    ∃ p t u, run img k p s = some t ∧
      t.rip = C.main.addr (labelIndex (mainCode elements)
        (verdictLabel (correct key answer (maskReply reply)))) ∧
      run img k 5 t = some u ∧
      u.trace = s.trace ++ [verdictCall elements (correct key answer (maskReply reply))] := by
  set low := s.reg .rsp - 16#64 with hlow
  set right := correct key answer (maskReply reply) with hright
  -- the call of slot 13
  have hops := C.main.run_ops k [.movImm64 .rax (elements + 13#64 * 0x100#64)] (i := 0) (s := s)
    rfl (hrip.trans C.main.addr_zero.symm)
  set s₁ := (execOps [.movImm64 .rax (elements + 13#64 * 0x100#64)] s).goto
    (C.main.addr (0 + 1)) with hs₁
  have hcall := C.main.step_call k (i := 1) (r := .rax) (s := s₁) rfl rfl
  set s₂ := s₁.pushCall (C.main.addr (1 + 1)) (s₁.reg .rax) with hs₂
  have hrax : s₁.reg .rax = elements + 13#64 * 0x100#64 := by
    simp [hs₁, execOps, Op.exec]
  have hsp : s.reg .rsp - 8#64 = low + 8#64 := by
    rw [hlow]
    bv_omega
  have hrsp : s₂.reg .rsp = low + 8#64 := by
    rw [hs₂, State.rsp_pushCall, ← hsp]
    rfl
  have hmem : s₂.mem = store64 s.mem (low + 8#64) (C.main.addr (1 + 1)) := by
    rw [hs₂, State.mem_pushCall, ← hsp]
    rfl
  -- the data slot 13 reads is as on entry
  have hread : ∀ {b : BitVec 64} {l : ℕ}, Apart low 24 b l →
      s₂.mem.read b l = s.mem.read b l := by
    intro b l happart
    rw [hmem]
    exact read_write_of_apart _ _ _ _ _ (happart.symm.inside (i := 8) (l := 8) (by decide)).symm
  have hprefix : s.mem.read glob 32 = (maskReply reply).toList.take 32 := by
    rw [← hglob, show 256 = 32 + 224 from rfl, read_add, List.take_left' (length_read _ _ _)]
  have hagree := accepts_iff_correct ((hread L.stack_key).trans hkey)
    ((hread L.stack_answer).trans hanswer) ((hread L.stack_glob).trans hprefix)
  obtain ⟨p, s₃, hvalidation, hrip₃, htrace₃, hal⟩ := validation_returns k C L hrsp hrax
  have hback : s₃.rip = C.main.addr 2 := by
    rw [hrip₃, hrsp, hmem, load64_store64]
  have hresult : s₃.reg8 .rax = if right = true then 1#8 else 0#8 := by
    rw [hal]
    by_cases hc : right = true
    · rw [if_pos (hagree.mpr hc), if_pos hc]
    · rw [if_neg (fun h => hc (hagree.mp h)), if_neg hc]
  obtain ⟨n, t, hbranch, hlabel, htrace⟩ := main_branches k C.main right hback hresult
  have hrun := run_trans (run_trans hops (run_one hcall)) (run_trans hvalidation hbranch)
  obtain ⟨u, hprint, hu⟩ := main_prints k C.main right hlabel
  refine ⟨_, t, u, hrun, hlabel, hprint, ?_⟩
  rw [hu, htrace]
  exact congrArg (· ++ [verdictCall elements right]) htrace₃

/-! ### A client to run on -/

/-- The code of the slots the check-in program uses; the others stay `ret`. -/
def checkInCode (elements glob : BitVec 64) (slot : ℕ) : Assembly :=
  match slot with
  | 11 => encryptCode
  | 12 => decryptCode
  | 13 => validationCode elements glob
  | 14 => mainCode elements
  | 401 => memcmpCode
  | _ => [.instr .ret]

/-- The check-in program, assembled into slots of 256 bytes from the texts of its routines. -/
def loadedCheckIn : Loaded (assembleSlots 256 0x100000#64 (checkInCode 0x100000#64 0x400000#64))
    0x100000#64 0x400000#64 where
  encrypt := placedSlot 256 _ (checkInCode 0x100000#64 0x400000#64) 11 (by decide) (by decide)
  decrypt := placedSlot 256 _ (checkInCode 0x100000#64 0x400000#64) 12 (by decide) (by decide)
  validation := placedSlot 256 _ (checkInCode 0x100000#64 0x400000#64) 13 (by decide) (by decide)
  main := placedSlot 256 _ (checkInCode 0x100000#64 0x400000#64) 14 (by decide) (by decide)
  memcmp := placedSlot 256 _ (checkInCode 0x100000#64 0x400000#64) 401 (by decide) (by decide)

/-- Client memory with the shipped key and answer in their slots and `g` in the buffer. -/
def clientMemory (g : Element) : Memory (BitVec 64) :=
  Memory.write (Memory.write (Memory.write (fun _ => 0#8) (0x100000#64 + 0x800#64) shippedKey)
    (0x100000#64 + 0x700#64) shippedAnswer) 0x400000#64 g.toList

lemma clientMemory_key (g : Element) :
    (clientMemory g).read (0x100000#64 + 0x800#64) 16 = shippedKey := by
  have hglob : Apart 0x400000#64 g.toList.length (0x100000#64 + 0x800#64) 16 := by
    rw [Vector.length_toList]
    exact (apart_of_le (by decide) (by decide)).symm
  have hanswer : Apart (0x100000#64 + 0x700#64) shippedAnswer.length (0x100000#64 + 0x800#64) 16 :=
    apart_of_le (by decide) (by decide)
  rw [clientMemory, read_write_of_apart _ _ _ _ _ hglob, read_write_of_apart _ _ _ _ _ hanswer]
  exact read_write_self _ _ shippedKey (offsetsDistinct _ (by decide))

lemma clientMemory_answer (g : Element) :
    (clientMemory g).read (0x100000#64 + 0x700#64) 32 = shippedAnswer := by
  have hglob : Apart 0x400000#64 g.toList.length (0x100000#64 + 0x700#64) 32 := by
    rw [Vector.length_toList]
    exact (apart_of_le (by decide) (by decide)).symm
  rw [clientMemory, read_write_of_apart _ _ _ _ _ hglob]
  exact read_write_self _ _ shippedAnswer (offsetsDistinct _ (by decide))

lemma clientMemory_glob (g : Element) : (clientMemory g).read 0x400000#64 256 = g.toList := by
  rw [clientMemory]
  have hback := read_write_self
    (Memory.write (Memory.write (fun _ => 0#8) (0x100000#64 + 0x800#64) shippedKey)
      (0x100000#64 + 0x700#64) shippedAnswer) 0x400000#64 g.toList (offsetsDistinct _ (by simp))
  rwa [Vector.length_toList] at hback

/-- A client about to enter slot 14 with `g` in its buffer. -/
def clientAtMain (g : Element) : State where
  reg := fun r => if r = .rsp then 0x7ffff0#64 else 0#64
  zf := false
  df := false
  mem := clientMemory g
  rip := 0x100000#64 + 14#64 * 0x100#64
  trace := []

lemma clientAtMain_mem (g : Element) : (clientAtMain g).mem = clientMemory g := rfl

/-- The verdicts on a reply of 256 letters `A`: the client prints what the server's test finds. -/
theorem verdicts_agree_letters : ∃ p t u,
    run (assembleSlots 256 0x100000#64 (checkInCode 0x100000#64 0x400000#64))
      ⟨fun _ _ => 0#64, fun _ _ => 0#64, fun _ m => m⟩ p
      (clientAtMain (maskReply (Vector.replicate 256 0x41#8))) = some t ∧
    t.rip = loadedCheckIn.main.addr (labelIndex (mainCode 0x100000#64)
      (verdictLabel (correct shippedKey shippedAnswer
        (maskReply (Vector.replicate 256 0x41#8))))) ∧
    run (assembleSlots 256 0x100000#64 (checkInCode 0x100000#64 0x400000#64))
      ⟨fun _ _ => 0#64, fun _ _ => 0#64, fun _ m => m⟩ 5 t = some u ∧
    u.trace = (clientAtMain (maskReply (Vector.replicate 256 0x41#8))).trace ++
      [verdictCall 0x100000#64 (correct shippedKey shippedAnswer
        (maskReply (Vector.replicate 256 0x41#8)))] := by
  refine verdicts_agree _ loadedCheckIn ⟨?_, ?_, ?_, ?_, ?_⟩ rfl shippedKey shippedAnswer
    (Vector.replicate 256 0x41#8) ?_ ?_ ?_
  · exact (apart_of_le (by decide) (by decide)).symm
  · exact (apart_of_le (by decide) (by decide)).symm
  · exact (apart_of_le (by decide) (by decide)).symm
  · exact (apart_of_le (by decide) (by decide)).symm
  · exact (apart_of_le (by decide) (by decide)).symm
  · rw [clientAtMain_mem, clientMemory_key]
  · rw [clientAtMain_mem, clientMemory_answer]
  · rw [clientAtMain_mem, clientMemory_glob]

end Whuctf.Client
