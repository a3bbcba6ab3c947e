import Whuctf.Client.CipherRoutines

/-!
# The cipher routines refine the server's cipher

For every memory, block and key, the routines of slots 11 and 12 make the thirty-two rounds of
`myencrypt` and `mydecrypt`, one pass of the loop for each round, store the result and return
(`cipher_routines_refine`).  No instruction on the way writes a byte outside the block: before the
exit nothing is stored, and the exit stores its eight bytes (`cipherRoutine_along`).

That the routines return with the right memory is in `CipherRoutines`.  What the refinement adds is the
path: the label of the loop is passed thirty-two times and no more, and the frame holds in every state
in between, not only at the end.
-/

namespace Whuctf.Client

open X86

/-- Memory outside the block at `rdi` is as it was in `s`. -/
def OutsideBlock (s t : State) : Prop :=
  ∀ x, (∀ i : ℕ, i < 8 → s.reg .rdi + (i : BitVec 64) ≠ x) → t.mem x = s.mem x

lemma OutsideBlock.of_mem_eq {s t : State} (h : t.mem = s.mem) : OutsideBlock s t := by
  intro x _
  rw [h]

/-- A store inside the block leaves the rest of memory alone. -/
lemma outsideBlock_of_write {s t : State} {m : Memory (BitVec 64)} (off : ℕ) (bs : List Byte)
    (hm : ∀ x, (∀ i : ℕ, i < 8 → s.reg .rdi + (i : BitVec 64) ≠ x) → m x = s.mem x)
    (h : t.mem = m.write (s.reg .rdi + (off : BitVec 64)) bs) (hfit : off + bs.length ≤ 8) :
    OutsideBlock s t := by
  intro x hx
  rw [h, Memory.write_apply_of_ne, hm x hx]
  intro i hi
  rw [add_assoc, ← Nat.cast_add]
  exact hx _ (by omega)

/-- The exit stores inside the block, one word after the other. -/
lemma cipherExit_outsideBlock {s t : State} {r : Rounds} (h : Holds s r t) (j : ℕ)
    (a : BitVec 64) : OutsideBlock s ((execOps (cipherExit.take j) t).goto a) := by
  have hzero : t.reg .r8 + 0#64 = s.reg .rdi + ((0 : ℕ) : BitVec 64) := by rw [h.block]; rfl
  have hfour : t.reg .r8 + 4#64 = s.reg .rdi + ((4 : ℕ) : BitVec 64) := by rw [h.block]; rfl
  have hfirst : OutsideBlock s ((execOps (cipherExit.take 1) t).goto a) := by
    refine outsideBlock_of_write (m := t.mem) 0 (Word32.bytesLE (t.reg32 .rsi))
      (fun x _ => by rw [h.mem]) ?_ (by simp)
    rw [← hzero]
    rfl
  match j with
  | 0 => exact OutsideBlock.of_mem_eq h.mem
  | 1 => exact hfirst
  | j + 2 =>
      rw [List.take_of_length_le (show cipherExit.length ≤ j + 2 from Nat.le_add_left 2 j)]
      refine outsideBlock_of_write 4 (Word32.bytesLE (t.reg32 .rcx)) hfirst ?_ (by simp)
      rw [← hfour]
      rfl

/-! ## What a routine does on the way

Entry, passes and exit are stretches of straight code.  A stretch that has no store keeps memory at
each of its instructions, and the exit has only the two stores of the result. -/

section Routine

variable {img : Image} {base : BitVec 64} {entry body : List Op}
  (P : Placed img base (cipherCode entry body)) (k : Kernel) {s : State} {r : Rounds}
  (round : Rounds → Rounds) (stop : Rounds → Bool)
  (hentry : Holds s r (execOps entry s))
  (hbody : ∀ q t, Holds s q t → Holds s (round q) (execOps body t) ∧
    (execOps body t).zf = stop (round q))
  (hstop : ∀ n ≤ 31, stop (round^[n + 1] r) = decide (n = 31))
  (hrip : s.rip = base)
include P hentry hbody hstop hrip

/-- No state on the way differs from the first outside the block. -/
lemma cipherRoutine_along (hentryMem : entry.all Op.keepsMem = true)
    (hbodyMem : body.all Op.keepsMem = true) :
    Along img k (OutsideBlock s) (entry.length + 32 * (body.length + 1) + 3) s := by
  have htake : ∀ (os : List Op) (j : ℕ), os.all Op.keepsMem = true →
      (os.take j).all Op.keepsMem = true := by
    intro os j hos
    rw [List.all_eq_true] at hos ⊢
    exact fun o ho => hos o (List.mem_of_mem_take ho)
  have hquiet : ∀ (os : List Op) (t : State), os.all Op.keepsMem = true → t.mem = s.mem →
      ∀ j a, OutsideBlock s ((execOps (os.take j) t).goto a) := fun os t hos ht j a =>
    OutsideBlock.of_mem_eq ((mem_execOps (htake os j hos) t).trans ht)
  obtain ⟨t, hleave, hholds, htrip⟩ :=
    cipherRoutine_leaves P k round stop hentry hbody hstop hrip
  -- up to the label, through the loop, through the stores, and the return
  have hentered := P.along_ops k entry (cipherCode_drop_zero entry body)
    (hrip.trans P.addr_zero.symm) (hquiet entry s hentryMem rfl)
  have hlooped := P.along_doWhile k body (labelIndex_loop entry body) (cipherCode_loop entry body)
    (cipherCode_drop_body entry body) (I := fun j => Holds s (round^[j] r))
    (fun j u a h => h.goto a) (n := 31)
    (fun j t => cipherRoutine_pass round stop hbody hstop j t)
    (hentry.goto (P.addr entry.length)) rfl
    (fun j t ht => hquiet body t hbodyMem ht.mem)
  have hstored := P.along_ops k cipherExit (cipherCode_drop_exit entry body) htrip
    (cipherExit_outsideBlock hholds)
  have hstore := P.run_ops k cipherExit (cipherCode_drop_exit entry body) htrip
  have hend : OutsideBlock s ((execOps cipherExit t).goto
      (P.addr (entry.length + 1 + body.length + 1 + 2))) :=
    cipherExit_outsideBlock hholds 2 _
  have hreturned := along_step hend (P.step_ret k (cipherCode_ret entry body) rfl) hend
  exact (hentered.trans (cipherRoutine_enters P k hrip) hlooped).trans hleave
    (hstored.trans hstore hreturned)

end Routine

/-- A cipher routine entered in `s`, with `head` its label and `behind` the line after its jump: it
passes the label thirty-two times, leaves the loop, and executes its `ret` with `m` in memory. -/
structure CipherRun (img : Image) (k : Kernel) (s : State) (head behind : BitVec 64)
    (round : Rounds → Rounds) (r : Rounds) (m : Memory (BitVec 64)) : Prop where
  passes : ∀ j < 32, ∃ t, run img k (6 + j * 28) s = some t ∧ t.rip = head ∧
    Holds s (round^[j] r) t
  leaves : ∃ t, run img k (6 + 32 * 28) s = some t ∧ t.rip = behind ∧ Holds s (round^[32] r) t
  halts : ∃ s', run img k (6 + 32 * 28 + 3) s = some s' ∧ s'.mem = m ∧
    s'.rip = load64 m (s.reg .rsp) ∧ s'.reg .rsp = s.reg .rsp + 8#64 ∧ s'.trace = s.trace
  frame : Along img k (OutsideBlock s) (6 + 32 * 28 + 3) s

/-- The run of a routine of slot 11's and 12's lengths, from what its entry and one pass of its body
do. -/
lemma cipherRun_of_rounds {img : Image} {base : BitVec 64} {entry body : List Op}
    (P : Placed img base (cipherCode entry body)) (k : Kernel) {s : State} {r : Rounds}
    (round : Rounds → Rounds) (stop : Rounds → Bool)
    (hentry : Holds s r (execOps entry s))
    (hbody : ∀ q t, Holds s q t → Holds s (round q) (execOps body t) ∧
      (execOps body t).zf = stop (round q))
    (hstop : ∀ n ≤ 31, stop (round^[n + 1] r) = decide (n = 31)) (hrip : s.rip = base)
    (hentryLength : entry.length = 6) (hbodyLength : body.length = 27)
    (hentryMem : entry.all Op.keepsMem = true) (hbodyMem : body.all Op.keepsMem = true) :
    CipherRun img k s (P.addr 6) (P.addr 35) round r
      (storeBlock s.mem (s.reg .rdi) ((round^[32] r).v0, (round^[32] r).v1)) := by
  have hheads := cipherRoutine_heads P k round stop hentry hbody hstop hrip
  have hleaves := cipherRoutine_leaves P k round stop hentry hbody hstop hrip
  have hhalts := cipherRoutine_halts P k round stop hentry hbody hstop hrip
  have halong := cipherRoutine_along P k round stop hentry hbody hstop hrip hentryMem hbodyMem
  rw [hentryLength, hbodyLength] at hheads hleaves hhalts halong
  obtain ⟨t, hrun, hholds, htrip⟩ := hleaves
  obtain ⟨s', hrun', hmem, hrip', hrest⟩ := hhalts
  refine ⟨fun j hj => ?_, ⟨t, hrun, htrip, hholds⟩, ⟨s', hrun', hmem, ?_, hrest⟩, halong⟩
  · obtain ⟨u, hu, hholds, hurip⟩ := hheads j (by omega)
    exact ⟨u, hu, hurip, hholds⟩
  · rw [hrip', hmem]

/-- **The cipher routines.**  From every state, slot 11 and slot 12 halt after exactly thirty-two
passes with the memory `myencrypt` and `mydecrypt` leave, and never write outside the block. -/
theorem cipher_routines_refine {img : Image} {base₁₁ base₁₂ : BitVec 64}
    (P : Placed img base₁₁ encryptCode) (Q : Placed img base₁₂ decryptCode) (k : Kernel)
    (s : State) :
    (s.rip = base₁₁ → CipherRun img k s (P.addr 6) (P.addr 35)
      (encryptRound (keyAt s.mem (s.reg .rsi)))
      { v0 := (loadBlock s.mem (s.reg .rdi)).1, v1 := (loadBlock s.mem (s.reg .rdi)).2, sum := 0 }
      (myencrypt s.mem (s.reg .rdi) s.mem (s.reg .rsi))) ∧
    (s.rip = base₁₂ → CipherRun img k s (Q.addr 6) (Q.addr 35)
      (decryptRound (keyAt s.mem (s.reg .rsi)))
      { v0 := (loadBlock s.mem (s.reg .rdi)).1, v1 := (loadBlock s.mem (s.reg .rdi)).2,
        sum := delta * 32#32 }
      (mydecrypt s.mem (s.reg .rdi) s.mem (s.reg .rsi))) := by
  constructor
  · intro hrip
    exact cipherRun_of_rounds P k (encryptRound (keyAt s.mem (s.reg .rsi)))
      (·.sum == 0xC6EF3720#32) (encryptEntry_holds s) (fun _ _ h => encryptBody_holds h)
      (fun _ hn => encrypt_stops_iff _ _ hn) hrip rfl rfl rfl rfl
  · intro hrip
    exact cipherRun_of_rounds Q k (decryptRound (keyAt s.mem (s.reg .rsi)))
      (·.sum == 0#32) (decryptEntry_holds s) (fun _ _ h => decryptBody_holds h)
      (fun _ hn => decrypt_stops_iff _ _ hn) hrip rfl rfl rfl rfl

/-- A machine about to enter slot 11, with its block at `0x400000` and its key at `0x100800`. -/
def clientAtEncrypt : State where
  reg := fun
    | .rdi => 0x400000#64
    | .rsi => 0x100800#64
    | .rsp => 0x7ffff0#64
    | _ => 0#64
  zf := false
  df := false
  mem := fun a => a.setWidth 8
  rip := 0x100000#64 + BitVec.ofNat 64 (256 * 11)
  trace := []

/-- Slots 11 and 12 of the client, the others being `ret`. -/
def cipherSlots (slot : ℕ) : Assembly :=
  match slot with
  | 11 => encryptCode
  | 12 => decryptCode
  | _ => [.instr .ret]

/-- Slot 11 on a block and a key of address bytes: each byte of the memory is the low byte of its
address. -/
theorem cipher_routines_refine_addresses : CipherRun (assembleSlots 256 0x100000#64 cipherSlots)
    ⟨fun _ _ => 0#64, fun _ _ => 0#64, fun _ m => m⟩ clientAtEncrypt
    ((placedSlot 256 0x100000#64 cipherSlots 11 (by decide) (by decide)).addr 6)
    ((placedSlot 256 0x100000#64 cipherSlots 11 (by decide) (by decide)).addr 35)
    (encryptRound (keyAt clientAtEncrypt.mem 0x100800#64))
    { v0 := (loadBlock clientAtEncrypt.mem 0x400000#64).1,
      v1 := (loadBlock clientAtEncrypt.mem 0x400000#64).2, sum := 0 }
    (myencrypt clientAtEncrypt.mem 0x400000#64 clientAtEncrypt.mem 0x100800#64) :=
  (cipher_routines_refine (placedSlot 256 0x100000#64 cipherSlots 11 (by decide) (by decide))
    (placedSlot 256 0x100000#64 cipherSlots 12 (by decide) (by decide))
    ⟨fun _ _ => 0#64, fun _ _ => 0#64, fun _ m => m⟩ clientAtEncrypt).1 rfl

end Whuctf.Client
