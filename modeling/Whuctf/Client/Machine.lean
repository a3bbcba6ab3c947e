import Whuctf.Client.Connection
import Whuctf.Client.Placement
import Whuctf.Client.Verdict

/-!
# The check-in on the machine

In `Operations` the effect of the code in a slot is a parameter.  Here it is what the processor makes
of the bytes the session stored there: the client calls the slot, and the machine runs until it is
back behind the call (`Placement.exec`).  How bytes are decoded is a parameter, as the assembler is.
The operating system prints and, asked for the reply, stores what was typed (`Console`).

Slot 10 returns with what was typed over the start of `global_data` (`input_returns`), and slot 14
returns when it has printed the verdict on it (`main_returns`).  With the protocol of a connection
this is the whole check-in, from the keyboard to the screen (`checkIn_session`).

The processor is that of `Library/X86`, and the two routines are proved on it in `Routines`.  What is
added here is the calling: the return address that the client's `call` pushes, the frame the routine
must leave alone, and the memory that the machine and the client have in common.
-/

namespace Whuctf.Client

open X86 Memory

/-! ## The operating system

Only two calls are made, and only what these two do is assumed.  A `write` has no effect on memory,
whatever it prints; a `read` of the reply stores at most as many bytes as it was asked for. -/

/-- The call slot 10 prompts with: `write` to the standard output of the 15 bytes of slot 9, which the
session has loaded with the prompt. -/
def promptCall (elements : BitVec 64) : Syscall :=
  { number := 1#64, arg0 := 1#64, arg1 := elements + 0x900#64, arg2 := 15#64 }

/-- The call slot 10 reads the reply with: `read` from the standard input of at most 32 bytes into
`global_data`. -/
def replyCall (glob : BitVec 64) : Syscall :=
  { number := 0#64, arg0 := 0#64, arg1 := glob, arg2 := 32#64 }

/-- `write` leaves memory alone, and the `read` of the reply stores what was typed, which is at most
the 32 bytes asked for. -/
structure Console (k : Kernel) (glob : BitVec 64) (typed : List Byte) : Prop where
  mem_write : ∀ c m, c.number = 1#64 → k.mem c m = m
  mem_read : ∀ m, k.mem (replyCall glob) m = m.write glob typed
  short : typed.length ≤ 32

/-! ## Slot 10 -/

/-- **Slot 10.**  The routine prompts, and returns with what was typed in the buffer. -/
lemma input_returns {img : Image} {elements glob base : BitVec 64} {k : Kernel}
    (P : Placed img base (inputCode elements glob)) {typed : List Byte} (K : Console k glob typed)
    {s : State} (hrip : s.rip = base) :
    ∃ s', run img k 11 s = some s' ∧ s'.mem = s.mem.write glob typed ∧
      s'.rip = load64 s'.mem (s.reg .rsp) ∧
      s'.trace = s.trace ++ [promptCall elements, replyCall glob] := by
  obtain ⟨s₁, hprompt, hrip₁, hmem₁, htrace₁, hrsp₁⟩ := P.run_syscall k [.movImm64 .rdi 1#64,
    .movImm64 .rsi (elements + 0x900#64), .movImm64 .rdx 15#64, .movImm64 .rax 1#64] (i := 0) (s := s)
    rfl (hrip.trans P.addr_zero.symm)
  obtain ⟨s₂, hread, hrip₂, hmem₂, htrace₂, hrsp₂⟩ := P.run_syscall k [.movImm64 .rdi 0#64,
    .movImm64 .rsi glob, .movImm64 .rdx 32#64, .movImm64 .rax 0#64] (i := 5) (s := s₁) rfl hrip₁
  have hret := P.step_ret k (i := 10) (s := s₂) rfl hrip₂
  -- the two calls
  have hcall₁ : (execOps [.movImm64 .rdi 1#64, .movImm64 .rsi (elements + 0x900#64),
      .movImm64 .rdx 15#64, .movImm64 .rax 1#64] s).call = promptCall elements := by
    simp [State.call, execOps, Op.exec, promptCall]
  have hcall₂ : (execOps [.movImm64 .rdi 0#64, .movImm64 .rsi glob, .movImm64 .rdx 32#64,
      .movImm64 .rax 0#64] s₁).call = replyCall glob := by
    simp [State.call, execOps, Op.exec, replyCall]
  rw [hcall₁, K.mem_write _ _ rfl] at hmem₁
  rw [hcall₂, K.mem_read] at hmem₂
  rw [hcall₁] at htrace₁
  rw [hcall₂] at htrace₂
  have hmem : s₂.mem = s.mem.write glob typed := by
    rw [hmem₂]
    exact congrArg (Memory.write · glob typed) hmem₁
  have hrsp : s₂.reg .rsp = s.reg .rsp := hrsp₂.trans hrsp₁
  refine ⟨_, run_trans (run_trans hprompt hread) (run_one hret), ?_, ?_, ?_⟩
  · rw [State.mem_popRet, hmem]
  · rw [State.rip_popRet, State.mem_popRet, hrsp]
  · have htrace : s₂.trace = s₁.trace ++ [replyCall glob] := htrace₂
    have hfirst : s₁.trace = s.trace ++ [promptCall elements] := htrace₁
    rw [State.trace_popRet, htrace, hfirst, List.append_assoc]
    rfl

/-! ## Slot 14

Whichever way the comparison goes, the routine ends in the same lines with another slot in them.  They
are treated once, with the slot and the length of its string as parameters. -/

/-- The lines of slot 14 that print a slot and return: one `write`, and memory is as before. -/
lemma printCall_returns {img : Image} {elements slot len glob : BitVec 64} {k : Kernel}
    (P : Placed img (elements + 14#64 * 0x100#64) (mainCode elements)) {typed : List Byte}
    (K : Console k glob typed) {i : ℕ} {rest : Assembly}
    (hcode : (mainCode elements).drop i =
      ops (printCall elements slot len) ++ .instr .syscall :: rest)
    (hret : (mainCode elements)[i + 5]? = some (.instr .ret)) {s : State} (hrip : s.rip = P.addr i) :
    ∃ s', run img k 6 s = some s' ∧ s'.mem = s.mem ∧ s'.rip = load64 s.mem (s.reg .rsp) ∧
      s'.trace = s.trace ++ [⟨1#64, 1#64, elements + slot * 0x100#64, len⟩] := by
  obtain ⟨s₁, hprint, hrip₁, hmem₁, htrace₁, hrsp₁⟩ :=
    P.run_syscall k (printCall elements slot len) hcode hrip
  have hback := P.step_ret k (s := s₁) hret hrip₁
  have hcall : (execOps (printCall elements slot len) s).call =
      ⟨1#64, 1#64, elements + slot * 0x100#64, len⟩ := by
    simp [State.call, execOps, Op.exec, printCall]
  rw [hcall, K.mem_write _ _ rfl] at hmem₁
  rw [hcall] at htrace₁
  have hmem : s₁.mem = s.mem := hmem₁
  have hrsp : s₁.reg .rsp = s.reg .rsp := hrsp₁
  refine ⟨_, run_trans hprint (run_one hback), ?_, ?_, htrace₁⟩
  · rw [State.mem_popRet, hmem]
  · rw [State.rip_popRet, hmem, hrsp]

/-- From the label of a verdict slot 14 prints its message and returns. -/
lemma main_prints_returns {img : Image} {elements glob : BitVec 64} {k : Kernel}
    (P : Placed img (elements + 14#64 * 0x100#64) (mainCode elements)) {typed : List Byte}
    (K : Console k glob typed) (right : Bool) {s : State}
    (hrip : s.rip = P.addr (labelIndex (mainCode elements) (verdictLabel right))) :
    ∃ s', run img k 6 s = some s' ∧ s'.mem = s.mem ∧ s'.rip = load64 s.mem (s.reg .rsp) ∧
      s'.trace = s.trace ++ [verdictCall elements right] := by
  cases right with
  | false =>
      have hlabel : P.addr 5 = P.addr 4 := P.addr_label 4 .wrong rfl
      exact printCall_returns P K (i := 5) rfl rfl (hrip.trans hlabel.symm)
  | true =>
      have hlabel : P.addr 12 = P.addr 11 := P.addr_label 11 .right rfl
      exact printCall_returns P K (i := 12) rfl rfl (hrip.trans hlabel.symm)

/-- **Slot 14.**  The routine prints the server's verdict on the masked reply and returns, with memory
apart from the reply and the stack below its frame as it was. -/
lemma main_returns {img : Image} {elements glob low : BitVec 64} {k : Kernel}
    (C : Loaded img elements glob) (L : Layout elements glob low) {typed : List Byte}
    (K : Console k glob typed) {s : State} (hsp : s.reg .rsp = low + 16#64)
    (hrip : s.rip = elements + 14#64 * 0x100#64) {key answer : List Byte} {reply : Element}
    (hkey : s.mem.read (elements + 0x800#64) 16 = key)
    (hanswer : s.mem.read (elements + 0x700#64) 32 = answer)
    (hglob : s.mem.read glob 256 = (maskReply reply).toList) :
    ∃ p s', run img k p s = some s' ∧ s'.rip = load64 s.mem (s.reg .rsp) ∧
      s'.trace = s.trace ++ [verdictCall elements (correct key answer (maskReply reply))] ∧
      ∀ b l, Apart low 16 b l → Apart glob 32 b l → s'.mem.read b l = s.mem.read b l := by
  set right := correct key answer (maskReply reply) with hright
  -- the call of slot 13
  have hops := C.main.run_ops k [.movImm64 .rax (elements + 13#64 * 0x100#64)] (i := 0) (s := s)
    rfl (hrip.trans C.main.addr_zero.symm)
  set s₁ := (execOps [.movImm64 .rax (elements + 13#64 * 0x100#64)] s).goto
    (C.main.addr (0 + 1)) with hs₁
  have hcall := C.main.step_call k (i := 1) (r := .rax) (s := s₁) rfl rfl
  set s₂ := s₁.pushCall (C.main.addr (1 + 1)) (s₁.reg .rax) with hs₂
  have hrax : s₁.reg .rax = elements + 13#64 * 0x100#64 := by
    simp [hs₁, execOps, Op.exec]
  have hsub : s.reg .rsp - 8#64 = low + 8#64 := by
    rw [hsp]
    bv_omega
  have hrsp : s₂.reg .rsp = low + 8#64 := by
    rw [hs₂, State.rsp_pushCall, ← hsub]
    rfl
  have hmem : s₂.mem = store64 s.mem (low + 8#64) (C.main.addr (1 + 1)) := by
    rw [hs₂, State.mem_pushCall, ← hsub]
    rfl
  -- what lies apart from the pushed return address is as on entry
  have hpush : ∀ {b : BitVec 64} {l : ℕ}, Apart low 16 b l →
      s₂.mem.read b l = s.mem.read b l := by
    intro b l happart
    rw [hmem]
    exact read_write_of_apart _ _ _ _ _ (happart.symm.inside (i := 8) (l := 8) (by decide)).symm
  have hread : ∀ {b : BitVec 64} {l : ℕ}, Apart low 24 b l → s₂.mem.read b l = s.mem.read b l :=
    fun happart => hpush (happart.mono (by decide) le_rfl)
  have hprefix : s.mem.read glob 32 = (maskReply reply).toList.take 32 := by
    rw [← hglob, show 256 = 32 + 224 from rfl, read_add, List.take_left' (length_read _ _ _)]
  have hagree := accepts_iff_correct ((hread L.stack_key).trans hkey)
    ((hread L.stack_answer).trans hanswer) ((hread L.stack_glob).trans hprefix)
  obtain ⟨p, s₃, hvalidation, hrip₃, htrace₃, hal, hrsp₃, hkeeps⟩ :=
    validation_keeps k C L hrsp hrax
  have hback : s₃.rip = C.main.addr 2 := by
    rw [hrip₃, hrsp, hmem, load64_store64]
  have hresult : s₃.reg8 .rax = if right = true then 1#8 else 0#8 := by
    rw [hal]
    by_cases hc : right = true
    · rw [if_pos (hagree.mpr hc), if_pos hc]
    · rw [if_neg (fun h => hc (hagree.mp h)), if_neg hc]
  obtain ⟨n, t, hbranch, hlabel, htrace, htmem, htrsp⟩ := main_jumps k C.main right hback hresult
  obtain ⟨u, hprint, humem, hurip, hutrace⟩ := main_prints_returns C.main K right hlabel
  have hrun := run_trans (run_trans hops (run_one hcall)) (run_trans hvalidation hbranch)
  have hframe : ∀ b l, Apart low 16 b l → Apart glob 32 b l → u.mem.read b l = s.mem.read b l := by
    intro b l hstack happart
    rw [humem, htmem, hkeeps b l (hstack.mono (by decide) le_rfl) happart]
    exact hpush hstack
  refine ⟨_, u, run_trans hrun hprint, ?_, ?_, hframe⟩
  · have hsame : t.reg .rsp = s.reg .rsp := by
      rw [htrsp, hrsp₃, hrsp, hsp]
      bv_omega
    have hstack : Apart low 16 (s.reg .rsp) 8 := by
      have happart := (offsetsDistinct low (n := 24) (by decide)).apart (i := 0) (k := 16) (j := 16)
        (l := 8) (by omega) (by omega) (by omega)
      rw [hsp]
      rwa [Nat.cast_zero, add_zero] at happart
    have hreply : Apart glob 32 (s.reg .rsp) 8 := by
      rw [hsp]
      exact L.stack_glob.symm.inside (i := 16) (by decide)
    rw [hurip, hsame, ← humem]
    exact load64_congr (hframe _ _ hstack hreply)
  · have hsame : s₃.trace = s.trace := htrace₃
    rw [hutrace, htrace, hsame]

/-! ## Calling a slot

`function()` in `client.c` is a call through a pointer into the array.  It is modelled by entering the
machine at the slot, with the return address on the stack, and by running it until the address is
reached; `Exec` then sees the element and the slots the machine leaves. -/

/-- What the code in the slots acts on besides the globals: the rest of memory, and the system calls
made so far, oldest first. -/
structure World where
  mem : ClientMemory
  trace : List Syscall

/-- The 256 bytes at an address, as an element: a slot, or `global_data`. -/
def elementAt (m : ClientMemory) (a : BitVec 64) : Element :=
  Vector.ofFn fun i => m (a + ((i : ℕ) : BitVec 64))

lemma toList_elementAt (m : ClientMemory) (a : BitVec 64) :
    (elementAt m a).toList = m.read a 256 := by
  have hlength : (elementAt m a).toList.length = (m.read a 256).length :=
    Vector.length_toList.trans (length_read m a 256).symm
  refine List.ext_getElem hlength fun i _ _ => ?_
  rw [Vector.getElem_toList, getElem_read]
  exact Vector.getElem_ofFn _

/-- Where the client calls from: its stack pointer behind the call, the address it returns to, and what
the registers hold at that moment. -/
structure CallSite where
  rsp : BitVec 64
  back : BitVec 64
  reg : Reg → BitVec 64

namespace Placement

variable (P : Placement)

/-- A memory with the globals of the client in their places: the element at `global_data`, the slots at
`elements`, and the given memory everywhere else. -/
def compose (m : ClientMemory) (es : Elements) (g : Element) : ClientMemory := fun a =>
  if h : (a - P.globalData).toNat < 256 then g.get ⟨_, h⟩
  else if h : (a - P.elements).toNat / 256 < 500 then
    (es.get ⟨_, h⟩).get ⟨(a - P.elements).toNat % 256, Nat.mod_lt _ (by decide)⟩
  else m a

/-- The machine at the first instruction of a slot: the return address is on the stack, and the
registers are those of the call site. -/
def enter (site : CallSite) (m : ClientMemory) (trace : List Syscall) (i : Fin 500) : State where
  reg := Function.update site.reg .rsp site.rsp
  zf := false
  df := false
  mem := store64 m site.rsp site.back
  rip := P.slot i
  trace := trace

@[simp] lemma rsp_enter (site : CallSite) (m : ClientMemory) (trace : List Syscall) (i : Fin 500) :
    (P.enter site m trace i).reg .rsp = site.rsp := by
  simp [enter]

/-- `function()`: the machine runs from the slot until it is back at the return address.  When the fuel
runs out before, or the machine is stuck, the globals stay as they were; the theorems show that this
does not happen. -/
def exec (decode : Elements → Image) (k : Kernel) (site : CallSite) (fuel : ℕ) : Exec World :=
  fun w es i g =>
    match runUntil (decode es) k site.back fuel
        (P.enter site (P.compose w.mem es g) w.trace i) with
    | some s => (elementAt s.mem P.globalData, ⟨s.mem, s.trace⟩)
    | none => (g, w)

variable {P}

lemma sub_add_toNat (a : BitVec 64) {i : ℕ} (hi : i < 2 ^ 64) :
    (a + (i : BitVec 64) - a).toNat = i := by
  rw [add_sub_cancel_left, BitVec.natCast_eq_ofNat, BitVec.toNat_ofNat, Nat.mod_eq_of_lt hi]

lemma read_compose_globalData (m : ClientMemory) (es : Elements) (g : Element) :
    (P.compose m es g).read P.globalData 256 = g.toList := by
  refine List.ext_getElem (by simp) fun i h₁ h₂ => ?_
  have hi : i < 256 := by rwa [length_read] at h₁
  have hoffset := sub_add_toNat P.globalData (i := i) (by omega)
  rw [getElem_read, compose, dif_pos (by rw [hoffset]; exact hi), Vector.getElem_toList]
  simp only [hoffset]
  rfl

lemma read_compose_slot (m : ClientMemory) (es : Elements) (g : Element) (i : Fin 500) :
    (P.compose m es g).read (P.slot i) 256 = (es.get i).toList := by
  refine List.ext_getElem (by simp) fun j h₁ h₂ => ?_
  have hj : j < 256 := by rwa [length_read] at h₁
  have haddress : P.slot i + (j : BitVec 64) = P.elements + ((256 * i + j : ℕ) : BitVec 64) := by
    rw [slot, Nat.cast_add, add_assoc]
  have hoffset := sub_add_toNat P.elements (i := 256 * i + j) (by omega)
  -- an address of the mapping is not one of `global_data`
  have hnot : ¬(P.elements + ((256 * i + j : ℕ) : BitVec 64) - P.globalData).toNat < 256 := by
    intro hin
    refine P.apart _ hin (256 * i + j) (by omega) ?_
    rw [BitVec.natCast_eq_ofNat, BitVec.ofNat_toNat, BitVec.setWidth_eq, add_sub_cancel]
  have hdiv : (256 * (i : ℕ) + j) / 256 = i := by omega
  have hmod : (256 * (i : ℕ) + j) % 256 = j := by omega
  rw [getElem_read, compose, haddress, dif_neg hnot, dif_pos (by rw [hoffset]; omega),
    Vector.getElem_toList]
  simp only [hoffset, hdiv, hmod]
  rfl

/-- The code of a slot that returns has run: with enough fuel, what `exec` gives is read off the state
the machine returns in. -/
lemma exec_eq {decode : Elements → Image} {k : Kernel} {site : CallSite} {es : Elements}
    (hback : decode es site.back = none) {w : World} {i : Fin 500} {g : Element} {n : ℕ} {s : State}
    (hrun : run (decode es) k n (P.enter site (P.compose w.mem es g) w.trace i) = some s)
    (hrip : s.rip = site.back) {fuel : ℕ} (hfuel : n ≤ fuel) :
    P.exec decode k site fuel w es i g = (elementAt s.mem P.globalData, ⟨s.mem, s.trace⟩) := by
  rw [exec, runUntil_of_run hback hrun hrip hfuel]

end Placement

/-! ## The check-in -/

/-- The slots decode to the routines of the check-in, and the client's own code is not in them. -/
structure Decoded (img : Image) (P : Placement) (back : BitVec 64) extends
    Loaded img P.elements P.globalData where
  input : Placed img (P.elements + 10#64 * 0x100#64) (inputCode P.elements P.globalData)
  outside : img back = none

/-- The stack of the client, with the sixteen bytes the routines push to below its pointer, is apart
from the slots and from `global_data`. -/
structure CallSite.Clear (site : CallSite) (P : Placement) : Prop where
  globalData : Apart (site.rsp - 16#64) 24 P.globalData 256
  elements : Apart (site.rsp - 16#64) 24 P.elements (256 * 500)

section CheckIn

variable {P : Placement} {site : CallSite}

lemma CallSite.Clear.slot (h : site.Clear P) (i : Fin 500) :
    Apart (site.rsp - 16#64) 24 (P.slot i) 256 :=
  h.elements.inside (by omega)

/-- The pushed return address is apart from what is apart from the stack. -/
lemma apart_rsp {b : BitVec 64} {l : ℕ} (h : Apart (site.rsp - 16#64) 24 b l) :
    Apart site.rsp 8 b l := by
  have hinside := (h.symm.inside (i := 16) (l := 8) (by decide)).symm
  rwa [show site.rsp - 16#64 + ((16 : ℕ) : BitVec 64) = site.rsp by
    rw [BitVec.natCast_eq_ofNat]; exact BitVec.sub_add_cancel _ _] at hinside

lemma layout_of_clear (h : site.Clear P) :
    Layout P.elements P.globalData (site.rsp - 16#64) where
  stack_glob := h.globalData.mono le_rfl (by decide)
  stack_answer := (h.slot 7).mono le_rfl (by decide)
  stack_key := (h.slot 8).mono le_rfl (by decide)
  glob_answer := (P.apart_slot 7).mono (by decide) (by decide)
  glob_key := (P.apart_slot 8).mono (by decide) (by decide)

/-- The machine finds the globals of the client when it enters a slot. -/
lemma enter_holds (h : site.Clear P) (m : ClientMemory) (trace : List Syscall) (es : Elements)
    (g : Element) (i : Fin 500) :
    P.Holds (P.enter site (P.compose m es g) trace i).mem (⟨g, es, ()⟩ : ClientState Unit) := by
  have hpush : ∀ {b : BitVec 64} {l : ℕ}, Apart (site.rsp - 16#64) 24 b l →
      (store64 (P.compose m es g) site.rsp site.back).read b l = (P.compose m es g).read b l :=
    fun happart => read_write_of_apart _ _ _ _ _ (apart_rsp happart)
  constructor
  · exact (hpush h.globalData).trans (Placement.read_compose_globalData m es g)
  · exact fun j => (hpush (h.slot j)).trans (Placement.read_compose_slot m es g j)

/-- Slot 10, called: the element comes back with what was typed over its start, and the slots are as
they were. -/
lemma exec_input {decode : Elements → Image} {k : Kernel} {typed : List Byte} {es : Elements}
    (D : Decoded (decode es) P site.back) (K : Console k P.globalData typed) (h : site.Clear P)
    (w : World) (g : Element) :
    ∃ m, (∀ i, m.read (P.slot i) 256 = (es.get i).toList) ∧
      ∀ fuel ≥ 11, P.exec decode k site fuel w es 10 g =
        (g.overwrite typed, ⟨m, w.trace ++ [promptCall P.elements, replyCall P.globalData]⟩) := by
  set s := P.enter site (P.compose w.mem es g) w.trace 10 with hs
  have hholds : P.Holds s.mem (⟨g, es, ()⟩ : ClientState Unit) := enter_holds h w.mem w.trace es g 10
  obtain ⟨s', hrun, hmem, hrip, htrace⟩ := input_returns D.input K (s := s) rfl
  have hshort : typed.length ≤ 256 := K.short.trans (by decide)
  have hafter := hholds.sync hshort
  rw [← hmem] at hafter
  have hback : s'.rip = site.back := by
    have hrsp : s.reg .rsp = site.rsp := P.rsp_enter site _ _ _
    have hsame : load64 s'.mem site.rsp = load64 s.mem site.rsp := by
      rw [hmem]
      exact load64_congr (read_write_of_apart _ _ _ _ _
        ((apart_rsp h.globalData).symm.mono hshort le_rfl))
    rw [hrip, hrsp, hsame]
    exact load64_store64 _ _ _
  refine ⟨s'.mem, hafter.element, fun fuel hfuel => ?_⟩
  rw [Placement.exec_eq D.outside hrun hback hfuel, htrace]
  have helement : elementAt s'.mem P.globalData = g.overwrite typed := by
    rw [← Vector.toList_inj, toList_elementAt]
    exact hafter.globalData
  rw [helement]
  rfl

/-- Slot 14, called: the server's verdict on the masked reply is printed, and the slots are as they
were. -/
lemma exec_main {decode : Elements → Image} {k : Kernel} {typed : List Byte} {es : Elements}
    (D : Decoded (decode es) P site.back) (K : Console k P.globalData typed) (h : site.Clear P)
    (w : World) {key answer : List Byte} (hkey : (es.get 8).toList.take 16 = key)
    (hanswer : (es.get 7).toList.take 32 = answer) (reply : Element) :
    ∃ N g m, (∀ i, m.read (P.slot i) 256 = (es.get i).toList) ∧
      ∀ fuel ≥ N, P.exec decode k site fuel w es 14 (maskReply reply) =
        (g, ⟨m, w.trace ++ [verdictCall P.elements (correct key answer (maskReply reply))]⟩) := by
  set s := P.enter site (P.compose w.mem es (maskReply reply)) w.trace 14 with hs
  have hholds : P.Holds s.mem (⟨maskReply reply, es, ()⟩ : ClientState Unit) :=
    enter_holds h w.mem w.trace es (maskReply reply) 14
  have hrsp : s.reg .rsp = site.rsp := P.rsp_enter site _ _ _
  have hstack : s.reg .rsp = site.rsp - 16#64 + 16#64 := by
    rw [hrsp]
    exact (BitVec.sub_add_cancel _ _).symm
  have hslot : ∀ (i : Fin 500) {n : ℕ}, n ≤ 256 →
      s.mem.read (P.slot i) n = (es.get i).toList.take n := by
    intro i n hn
    rw [← hholds.element i, take_read _ _ hn]
  obtain ⟨p, s', hrun, hrip, htrace, hkeeps⟩ := main_returns D.toLoaded (layout_of_clear h) K hstack
    rfl ((hslot 8 (by decide)).trans hkey) ((hslot 7 (by decide)).trans hanswer) hholds.globalData
  have hback : s'.rip = site.back := by
    rw [hrip, hrsp]
    exact load64_store64 _ _ _
  refine ⟨p, elementAt s'.mem P.globalData, s'.mem, fun i => ?_, fun fuel hfuel => ?_⟩
  · rw [hkeeps _ _ ((h.slot i).mono (by decide) le_rfl) ((P.apart_slot i).mono (by decide) le_rfl)]
    exact hholds.element i
  · rw [Placement.exec_eq D.outside hrun hback hfuel, htrace]
    rfl

/-- What a payload of the session leaves at the start of its slot. -/
lemma take_loadedSlots (ksAsm : Assembler) (elements glob : BitVec 64) (i : Fin 500)
    (payload : List Byte) (h : (sessionPayloads ksAsm elements glob).lookup i = some payload)
    (hlen : payload.length ≤ 256) :
    ((loadedSlots ksAsm elements glob).get i).toList.take payload.length = payload := by
  have hget : (loadedSlots ksAsm elements glob).get i = Element.filler.overwrite payload := by
    change (loadedSlots ksAsm elements glob)[(i : ℕ)] = _
    rw [loadedSlots, Vector.getElem_ofFn, h]
    rfl
  rw [hget, Element.toList_overwrite _ hlen, List.take_left]

/-- The text behind the call that prints a verdict: its two arguments name the slot with the line of
that verdict and the length with the terminator. -/
lemma read_verdict {ksAsm : Assembler} {m : ClientMemory}
    (h : ∀ i, m.read (P.slot i) 256 =
      ((loadedSlots ksAsm P.elements P.globalData).get i).toList) (right : Bool) :
    m.read (verdictCall P.elements right).arg1 (verdictCall P.elements right).arg2.toNat =
      (if right then rightText else wrongText) ++ [0#8] := by
  cases right with
  | false =>
      have htext := take_loadedSlots ksAsm P.elements P.globalData 300 (wrongText ++ [0#8]) rfl
        (by decide)
      rw [← h 300, take_read _ _ (by decide)] at htext
      exact htext
  | true =>
      have htext := take_loadedSlots ksAsm P.elements P.globalData 200 (rightText ++ [0#8]) rfl
        (by decide)
      rw [← h 200, take_read _ _ (by decide)] at htext
      exact htext

/-- Without a correct verdict the client is left without the mark, so it does not print a flag. -/
lemma ending_of_wrong {W : Type} {c : ClientState W} {flagFile : Option (List Byte)} {g : Element}
    (hc : c.globalData = reward flagFile false g) : ending c = none := by
  have hmark : c.globalData.get (Fin.last 255) = 0#8 := by
    rw [hc]
    exact Vector.getElem_set_self (by decide)
  rw [ending, if_neg (not_not.mpr hmark)]

/-- **The check-in, from the keyboard to the screen.**  The texts of the session assemble into their
slots and the machine decodes them there, the stack is apart from the client's data, and `typed` is
what is typed at the prompt.  For every flag file, whatever earlier connections left, with enough
instructions for the two calls, and however the two sides interleave: every run can be continued to
the end, and a client out of its loop has made three system calls, the prompt, the read and the print
of a verdict; the verdict printed is the server's; and the flag is shown exactly when it was correct
and the flag has at most 254 characters. -/
theorem checkIn_session {ksAsm : Assembler} (hfits : Assembles ksAsm P.elements P.globalData)
    {decode : Elements → Image} {k : Kernel} {typed : List Byte}
    (D : Decoded (decode (loadedSlots ksAsm P.elements P.globalData)) P site.back)
    (K : Console k P.globalData typed) (h : site.Clear P) (file : List Byte) (s : Server)
    (g : Element) (w : World) :
    ∃ N, ∀ fuel ≥ N, ∀ {n : ℕ} {S : System World},
      Steps (System.Step ksAsm (P.exec decode k site fuel)) n
        (System.accepted ksAsm (P.exec decode k site fuel) (some file) P.globalData P.elements s
          ⟨g, initialElements, w⟩) S →
      (∃ m S' c, n + m = 197 ∧ Steps (System.Step ksAsm (P.exec decode k site fuel)) m S S' ∧
        S'.wire.right = .ret (c, false)) ∧
      ∀ c, S.wire.right = .ret (c, false) →
        let right := correct shippedKey shippedAnswer (maskReply (s.globalData.overwrite typed))
        c.world.trace = w.trace ++
          [promptCall P.elements, replyCall P.globalData, verdictCall P.elements right] ∧
        c.world.mem.read (verdictCall P.elements right).arg1
          (verdictCall P.elements right).arg2.toNat =
            (if right then rightText else wrongText) ++ [0#8] ∧
        ending c = if right = true ∧ (untilNul (fgets file)).length ≤ 254
          then some (untilNul (fgets file)) else none := by
  set es := loadedSlots ksAsm P.elements P.globalData with hes
  set right := correct shippedKey shippedAnswer (maskReply (s.globalData.overwrite typed)) with hright
  have hkey : (es.get 8).toList.take 16 = shippedKey := by
    have htext := take_loadedSlots ksAsm P.elements P.globalData 8 (shippedKey ++ [0#8]) rfl
      (by decide)
    have hprefix := congrArg (List.take 16) htext
    rwa [List.take_take] at hprefix
  have hanswer : (es.get 7).toList.take 32 = shippedAnswer :=
    take_loadedSlots ksAsm P.elements P.globalData 7 shippedAnswer rfl (by decide)
  -- the two calls
  obtain ⟨m₁, -, hinput⟩ := exec_input D K h w s.globalData
  obtain ⟨N, g₂, m₂, hslots, hmain⟩ := exec_main D K h
    ⟨m₁, w.trace ++ [promptCall P.elements, replyCall P.globalData]⟩ hkey hanswer
    (s.globalData.overwrite typed)
  refine ⟨max 11 N, fun fuel hfuel {n S} hrun => ?_⟩
  have hten := hinput fuel (le_of_max_le_left hfuel)
  have hfourteen := hmain fuel (le_of_max_le_right hfuel)
  set exec := P.exec decode k site fuel with hexec
  set s' := s.informed P.globalData P.elements with hs'
  set c' : ClientState World := ⟨s.globalData, es, w⟩ with hc'
  have hfirst : executed exec c' s'.globalData 10 = ⟨s.globalData.overwrite typed, es,
      ⟨m₁, w.trace ++ [promptCall P.elements, replyCall P.globalData]⟩⟩ := by
    change (⟨(exec w es 10 s.globalData).1, es, (exec w es 10 s.globalData).2⟩ :
      ClientState World) = _
    rw [hten]
  have hreply : firstReply exec s' c' = s.globalData.overwrite typed := by
    rw [firstReply, hfirst]
  have hlast : afterMain exec s' c' = ⟨g₂, es, ⟨m₂,
      w.trace ++ [promptCall P.elements, replyCall P.globalData] ++
        [verdictCall P.elements right]⟩⟩ := by
    rw [afterMain, hreply, hfirst, executed, hfourteen]
  -- every run goes on to the one end
  obtain ⟨m, hm, hrest⟩ := Steps.descent (System.diamond ksAsm exec)
    (connection_runs hfits exec (some file) s g w)
    (System.validated_stuck ksAsm exec (some file) s' c') hrun
  refine ⟨⟨m, _, _, hm, hrest, rfl⟩, fun c hended => ?_⟩
  have hend := System.right_ret_of_steps hrest hended
  injection hend with hend
  obtain rfl := (Prod.mk.inj hend).1
  refine ⟨?_, ?_, ?_⟩
  · rw [hlast, List.append_assoc]
    rfl
  · rw [hlast]
    exact read_verdict hslots right
  · by_cases hc : right = true
    · have hcorrect : correct shippedKey shippedAnswer (maskReply (firstReply exec s' c')) = true := by
        rw [hreply]
        exact hc
      rw [ending_validated file hcorrect, if_congr (and_iff_right hc) rfl rfl]
    · rw [if_neg (fun hboth => hc hboth.1)]
      have hwrong : correct shippedKey shippedAnswer (maskReply (firstReply exec s' c')) = false := by
        rw [hreply]
        exact Bool.eq_false_iff.mpr hc
      have hlost : lastSync exec (some file) s' c' =
          reward (some file) false (afterMain exec s' c').globalData := by
        rw [lastSync, hwrong]
      exact ending_of_wrong hlost

end CheckIn

/-! ### A machine to run on -/

/-- The text a slot holds, found by its first byte; a slot with another byte returns at once. -/
def taggedCode (es : Elements) (slot : ℕ) : Assembly :=
  if h : slot < 500 then (taggedTexts.lookup ((es.get ⟨slot, h⟩).get 0)).getD [.instr .ret]
  else [.instr .ret]

/-- The decoder that goes with it: a slot is decoded to the text its first byte stands for, and to
nothing when it stands for none. -/
def tagDecode (es : Elements) : Image :=
  assembleSlots 256 desk.elements (taggedCode es)

/-- The client calls with its stack at `0x7ffff0`. -/
def sampleSite : CallSite := ⟨0x7ffff0#64, 0x401001#64, fun _ => 0#64⟩

/-- An operating system on which thirty-two letters `A` are typed: a `read` stores them, and no other
call touches memory. -/
def sampleKernel : Kernel where
  rax := fun _ _ => 0#64
  r11 := fun _ _ => 0#64
  mem := fun c m => if c.number = 0#64 then m.write c.arg1 (List.replicate 32 0x41#8) else m

lemma sampleConsole :
    Console sampleKernel desk.globalData (List.replicate 32 0x41#8) where
  mem_write c m h := by
    have hne : ¬c.number = 0#64 := by
      rw [h]
      decide
    exact if_neg hne
  mem_read m := rfl
  short := by decide

lemma sampleSite_clear : sampleSite.Clear desk where
  globalData := (apart_of_le (by decide) (by decide)).symm
  elements := (apart_of_le (by decide) (by decide)).symm

lemma taggedCode_loaded (i : Fin 500) (b : Byte) (str : Assembly)
    (h : (sessionPayloads tagAssembler desk.elements desk.globalData).lookup i =
      some [b]) (hb : taggedTexts.lookup b = some str) :
    taggedCode (loadedSlots tagAssembler desk.elements desk.globalData) i =
      str := by
  have hget : (loadedSlots tagAssembler desk.elements desk.globalData).get i =
      Element.filler.overwrite [b] := by
    change (loadedSlots tagAssembler desk.elements desk.globalData)[(i : ℕ)] = _
    rw [loadedSlots, Vector.getElem_ofFn, h]
    rfl
  have hbyte : (Element.filler.overwrite [b]).get 0 = b := Element.getElem_overwrite _ _ 0 (by decide)
  rw [taggedCode, dif_pos i.isLt, hget, hbyte, hb]
  rfl

/-- A routine of the session in its slot: the byte that is loaded there stands for its text, which fits
between this slot and the next. -/
def placedTag (i : Fin 500) (b : Byte) (str : Assembly)
    (h : (sessionPayloads tagAssembler desk.elements desk.globalData).lookup i = some [b])
    (hb : taggedTexts.lookup b = some str) (hlen : str.length < 256) :
    Placed (tagDecode (loadedSlots tagAssembler desk.elements desk.globalData))
      (desk.elements + BitVec.ofNat 64 (256 * i)) str :=
  have hcode := taggedCode_loaded i b str h hb
  hcode ▸ placedSlot 256 desk.elements
    (taggedCode (loadedSlots tagAssembler desk.elements desk.globalData)) i (hcode ▸ hlen) (by omega)

/-- The slots hold the routines of the check-in, each decoded from the byte that its text was assembled
to. -/
lemma tagDecoded : Nonempty
    (Decoded (tagDecode (loadedSlots tagAssembler desk.elements desk.globalData)) desk
      sampleSite.back) :=
  ⟨{encrypt := placedTag 11 5#8 encryptCode (by decide) rfl (by decide)
    decrypt := placedTag 12 6#8 decryptCode (by decide) rfl (by decide)
    validation := placedTag 13 7#8 (validationCode desk.elements desk.globalData) (by decide) rfl
      (by decide)
    main := placedTag 14 8#8 (mainCode desk.elements) (by decide) rfl (by decide)
    memcmp := placedTag 401 2#8 memcmpCode (by decide) rfl (by decide)
    input := placedTag 10 4#8 (inputCode desk.elements desk.globalData) (by decide) rfl (by decide)
    outside := rfl }⟩

/-- The check-in with thirty-two letters `A`, on a server that has just been started. -/
theorem checkIn_session_letters : ∃ N, ∀ fuel ≥ N, ∀ {n : ℕ} {S : System World},
    Steps (System.Step tagAssembler (desk.exec tagDecode sampleKernel sampleSite fuel)) n
      (System.accepted tagAssembler (desk.exec tagDecode sampleKernel sampleSite fuel)
        (some [0x41#8]) desk.globalData desk.elements initialServer
        ⟨Vector.replicate 256 0#8, initialElements, ⟨fun _ => 0#8, []⟩⟩) S →
    (∃ m S' c, n + m = 197 ∧
      Steps (System.Step tagAssembler (desk.exec tagDecode sampleKernel sampleSite fuel)) m S S' ∧
      S'.wire.right = .ret (c, false)) ∧
    ∀ c, S.wire.right = .ret (c, false) →
      let right := correct shippedKey shippedAnswer
        (maskReply (initialServer.globalData.overwrite (List.replicate 32 0x41#8)))
      c.world.trace = [] ++
        [promptCall desk.elements, replyCall desk.globalData, verdictCall desk.elements right] ∧
      c.world.mem.read (verdictCall desk.elements right).arg1
        (verdictCall desk.elements right).arg2.toNat =
          (if right then rightText else wrongText) ++ [0#8] ∧
      ending c = if right = true ∧ (untilNul (fgets [0x41#8])).length ≤ 254
        then some (untilNul (fgets [0x41#8])) else none := by
  obtain ⟨D⟩ := tagDecoded
  exact checkIn_session tagAssembles D sampleConsole sampleSite_clear [0x41#8] initialServer
    (Vector.replicate 256 0#8) ⟨fun _ => 0#8, []⟩

end Whuctf.Client
