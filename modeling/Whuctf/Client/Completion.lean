import Whuctf.Client.Connection
import Whuctf.Client.Segmentation
import Whuctf.Library.Hangup

/-!
# Connections that are not completed

Each text of the session has to assemble, and to fit in a slot.  When `ks_asm` refuses one, the server
ends with `exit(1)`; when one is too long, the client quits over its length.  In both cases one program
is gone while the other still counts on it, so the steps here are those of a connection that can close
(`System.ClosingStep`).

The two programs meet a closed connection differently.  The server looks at no count, so it goes on with
what its globals held, until a write ends it or it comes to its `close`; that it comes there says nothing.
The client compares every count and quits at the first short read.  A session is therefore completed when
the client is out of its loop, which takes an `OPT_EXIT`.

With both ends open, a call that fails leads to a state without steps (`System.Stranded`), and since
steps commute no run of open steps completes the session.  A hang-up does not help: the client is where
open steps can bring it, or it has quit (`closing_cases`).  So a session can be completed exactly when its
texts fit, and otherwise the client quits in the end (`connection_completes_iff`).
-/

namespace Whuctf.Client

open Proc (FailStop Takes)

variable {W : Type}

/-! ## Connections that close -/

/-- The server has closed the connection, or its program has ended; in both cases nothing more comes
from it. -/
def ServerGone (p : Proc Server Server) : Prop := (∃ s, p = .ret s) ∨ ∃ s, p = .halt s

/-- The client is out of its loop, or has quit; its process ends then, and with it the socket closes. -/
def ClientGone (q : Proc (ClientState W) (ClientState W × Bool)) : Prop :=
  (∃ c, q = .ret (c, false)) ∨ ∃ c, q = .halt c

/-- A step of the system when its connection can close: one on an open connection, or a hang-up.  The
server is that of a whole connection, without calls left in a script. -/
inductive System.ClosingStep (ksAsm : Assembler) (exec : Exec W) : System W → System W → Prop
  | opened {S S' : System W} (h : System.Step ksAsm exec S S') : ClosingStep ksAsm exec S S'
  | hangup {d d' : Duplex Server Server (ClientState W) (ClientState W × Bool)}
      (h : Duplex.Hangup ServerGone ClientGone d d') : ClosingStep ksAsm exec ⟨d, []⟩ ⟨d', []⟩

/-! ## A text that does not fit

While both ends are open the call that fails is the end: the server has halted behind its element, or the
client in front of a payload, and the other waits. -/

/-- A call whose text does not assemble, or assembles to more than a slot takes. -/
def Call.Fails (ksAsm : Assembler) : Call → Prop
  | .dispatch .new idx str => idx.toNat < 500 ∧
      ∀ code, ksAsm str = some code → 256 ≤ code.length ∧ code.length < 2 ^ 31
  | _ => False

/-- No side has a step while the connection is open, and the client has quit or waits for a server whose
program has ended. -/
structure System.Stranded (ksAsm : Assembler) (exec : Exec W) (S : System W) : Prop where
  stuck : ∀ S', ¬System.Step ksAsm exec S S'
  client : (∃ c, S.wire.right = .halt c) ∨
    (∃ n k, S.wire.right = .read n k ∧ 0 < n) ∧ ∃ s, S.wire.left = .halt s

/-- The client waits for a server whose program has ended: there is nothing on the stream, and nothing
will be written to it. -/
lemma System.stranded_halt {ksAsm : Assembler} {exec : Exec W} {n : ℕ} (hn : 0 < n)
    (k : List Byte → Proc (ClientState W) (ClientState W × Bool)) (s : Server) :
    System.Stranded ksAsm exec ⟨⟨.halt s, .read n k, [], []⟩, []⟩ where
  stuck S' h := by
    cases h with
    | wire h =>
        cases h with
        | rightRead n _ k _ _ hle =>
            rw [List.length_nil] at hle
            omega
  client := .inr ⟨⟨n, k, rfl, hn⟩, s, rfl⟩

/-- The server waits for a client that has quit, with what that client has not read still on the
stream. -/
lemma System.stranded_quit {ksAsm : Assembler} {exec : Exec W} {n : ℕ} (hn : 0 < n)
    (k : List Byte → Proc Server Server) (c : ClientState W) (r : List Byte) :
    System.Stranded ksAsm exec ⟨⟨.read n k, .halt c, [], r⟩, []⟩ where
  stuck S' h := by
    cases h with
    | wire h =>
        cases h with
        | leftRead n k _ _ _ hle =>
            rw [List.length_nil] at hle
            omega
  client := .inl ⟨c, rfl⟩

/-- The client of a stranded session has not been told to leave its loop, so the session is not
completed there. -/
lemma System.Stranded.right_ne {ksAsm : Assembler} {exec : Exec W} {S : System W}
    (h : S.Stranded ksAsm exec) (c : ClientState W) : S.wire.right ≠ .ret (c, false) := by
  intro hright
  rcases h.client with ⟨c', hquit⟩ | ⟨⟨n, k, hread, -⟩, -⟩
  · rw [hright] at hquit
    cases hquit
  · rw [hright] at hread
    cases hread

/-- The client quits over the length of a payload: it has read the element, the opcode, the index and
the length, and leaves the payload on the stream. -/
lemma takes_iteration_long (exec : Exec W) (c : ClientState W) (g : Element) {v : BitVec 32}
    (hv : v.toNat < 500) {payload : List Byte} (hge : 256 ≤ payload.length)
    (hlt : payload.length < 2 ^ 31) :
    Takes (iteration exec c) (g.toList ++ ([0#8] ++ (Word32.bytesLE v ++
      (Word32.bytesLE (BitVec.ofNat 32 payload.length) ++ payload)))) 4
      (.halt { c with globalData := g }) payload := by
  have hnat : (BitVec.ofNat 32 payload.length).toNat = payload.length := by
    rw [BitVec.toNat_ofNat]
    omega
  have hint : (BitVec.ofNat 32 payload.length).toInt = payload.length := by
    rw [BitVec.toInt_eq_toNat_cond, if_pos (by omega), hnat]
  have hnew : Takes (clientOperationNew { c with globalData := g })
      (Word32.bytesLE v ++ (Word32.bytesLE (BitVec.ofNat 32 payload.length) ++ payload)) 2
      (.halt { c with globalData := g }) payload := by
    refine Takes.bind (n := 1) (m := 1) (takes_readIndex _ hv _)
      (Takes.bind (n := 1) (m := 0) (takes_readInt _ _ _) ?_)
    rw [if_pos (by rw [hint]; omega)]
    exact Takes.halt _ _
  refine Takes.bind (n := 1) (m := 3) (takes_syncGlobalRecv c g _) (Takes.read rfl ?_)
  rw [Proc.ret_bind]
  exact (hnew.bind_halt _).bind_halt _

/-- The client waits for an opcode that does not come: it has taken the element, and asks for one more
byte. -/
lemma takes_iteration_global (exec : Exec W) (c : ClientState W) (g : Element) :
    ∃ k, Takes (iteration exec c) g.toList 1 (.read 1 k) [] := by
  have hrecv := takes_syncGlobalRecv c g []
  rw [List.append_nil] at hrecv
  exact ⟨_, Takes.bind (n := 1) (m := 0) hrecv ⟨rfl, rfl⟩⟩

/-- A call that fails is the end of the connection: whatever is to follow it, there is a run of open
steps behind which nothing can move. -/
lemma Call.Fails.strands {ksAsm : Assembler} {call : Call} (h : call.Fails ksAsm) (exec : Exec W)
    (s : Server) (c : ClientState W) (f : Server → Proc Server Server) :
    ∃ n S, Steps (System.Step ksAsm exec) n
      ⟨⟨(call.run ksAsm s).bind f, iteration exec c, [], []⟩, []⟩ S ∧ S.Stranded ksAsm exec := by
  match call, h with
  | .dispatch .new idx str, ⟨hidx, hlong⟩ =>
      have hwire : ∀ {p p' : Proc Server Server} {q : Proc (ClientState W) (ClientState W × Bool)}
          {bs rest : List Byte} {m : ℕ}, p.emit = (bs, p') → Takes (iteration exec c) bs m q rest →
          Steps (System.Step ksAsm exec) (p.writes + m)
            ⟨⟨p, iteration exec c, [], []⟩, []⟩ ⟨⟨p', q, [], rest⟩, []⟩ := by
        intro p p' q bs rest m hp hq
        have hrequest := Duplex.request (p := p) (by rw [hp]; exact hq)
        rw [hp] at hrequest
        exact hrequest.map (fun d => (⟨d, []⟩ : System W)) fun _ _ h => .wire h
      cases hcode : ksAsm str with
      | none =>
          obtain ⟨k, hwaits⟩ := takes_iteration_global exec c s.globalData
          have hemit : (((Call.dispatch .new idx str).run ksAsm s).bind f).emit =
              (s.globalData.toList, .halt s) := by
            simp only [Call.run, operationDispatcher, announce, operationNew, hcode]
            exact Prod.ext (List.append_nil _) rfl
          exact ⟨_, _, hwire hemit hwaits, System.stranded_halt (by decide) k s⟩
      | some code =>
          obtain ⟨hge, hlt⟩ := hlong code hcode
          have hquits := takes_iteration_long exec c s.globalData hidx hge hlt
          have hemit : (((Call.dispatch .new idx str).run ksAsm s).bind f).emit =
              (s.globalData.toList ++ ([0#8] ++ (Word32.bytesLE idx ++
                (Word32.bytesLE (BitVec.ofNat 32 code.length) ++ (code ++ [])))),
                (readEcho s).bind f) := by
            simp only [Call.run, operationDispatcher, announce, operationNew, hcode]
            rfl
          rw [List.append_nil] at hemit
          exact ⟨_, _, hwire hemit hquits, System.stranded_quit (by decide) _ _ _⟩

/-- Calls one of which fails, behind calls that store: the connection goes through the ones in front
and is stranded at the first that does not fit. -/
lemma failing_strands {ksAsm : Assembler} {calls : List Call} (exec : Exec W) (s : Server)
    (c : ClientState W) (f : Server → Proc Server Server)
    (hcalls : ∀ call ∈ calls, (∃ i payload, call.Stores ksAsm i payload) ∨ call.Fails ksAsm)
    (hfails : ∃ call ∈ calls, call.Fails ksAsm) :
    ∃ n S, Steps (System.Step ksAsm exec) n
      ⟨⟨(runCalls ksAsm calls s).bind f, iteration exec c, [], []⟩, []⟩ S ∧
      S.Stranded ksAsm exec := by
  induction calls generalizing c with
  | nil =>
      obtain ⟨call, hmem, -⟩ := hfails
      cases hmem
  | cons call calls ih =>
      rw [runCalls, Proc.monad_bind_eq, Proc.bind_assoc]
      obtain ⟨hhead, hrest⟩ := List.forall_mem_cons.mp hcalls
      by_cases hfail : call.Fails ksAsm
      · exact hfail.strands exec s c _
      · obtain ⟨i, payload, hstores⟩ := hhead.resolve_right hfail
        have hlater : ∃ call ∈ calls, call.Fails ksAsm := by
          obtain ⟨other, hmem, hother⟩ := hfails
          rcases List.mem_cons.mp hmem with rfl | hmem
          · exact absurd hother hfail
          · exact ⟨other, hmem, hother⟩
        obtain ⟨n, S, hrun, hstranded⟩ := ih
          ⟨s.globalData, storePayload c.elements (i, payload), c.world⟩ hrest hlater
        exact ⟨_, S, (store_exchange hstores exec s c _ []).trans hrun, hstranded⟩

lemma System.todo_of_steps {ksAsm : Assembler} {exec : Exec W} {S S' : System W} {n : ℕ}
    (h : Steps (System.Step ksAsm exec) n S S') (htodo : S.todo = []) : S'.todo = [] := by
  induction h with
  | refl S => exact htodo
  | tail _ hlast ih =>
      have hmid := ih htodo
      cases hlast with
      | wire h => exact hmid
      | call => cases hmid
      | again => exact hmid

/-- A call of the session loads a text of the session, or data that fits. -/
lemma mem_loadingCalls {elements glob : BitVec 64} {call : Call}
    (h : call ∈ loadingCalls elements glob) :
    (∃ idx str, call = .dispatch .new idx str ∧ idx.toNat < 500 ∧
      str ∈ sessionTexts elements glob) ∨
    ∃ index data, call = .writeData index data ∧ index.toNat < 500 ∧ data.length ≤ 255 := by
  simp only [loadingCalls, builtinCalls, executableCalls, List.cons_append, List.nil_append,
    List.mem_cons, List.not_mem_nil, or_false] at h
  rcases h with rfl | rfl | rfl | rfl | rfl | rfl | rfl | rfl | rfl | rfl | rfl | rfl | rfl
  all_goals first
    | exact Or.inr ⟨_, _, rfl, by decide, by decide⟩
    | exact Or.inl ⟨_, _, rfl, by decide, by simp only [sessionTexts, List.mem_cons, true_or, or_true]⟩

/-- Every text of the session is loaded by one of its calls, so a text that does not fit makes that
call fail. -/
lemma exists_call_of_text {elements glob : BitVec 64} {str : Assembly}
    (h : str ∈ sessionTexts elements glob) :
    ∃ idx : BitVec 32, idx.toNat < 500 ∧ Call.dispatch .new idx str ∈ loadingCalls elements glob := by
  have hmem : ∀ {call : Call} (n : ℕ), (loadingCalls elements glob)[n]? = some call →
      call ∈ loadingCalls elements glob :=
    fun n hget => List.mem_iff_getElem?.mpr ⟨n, hget⟩
  simp only [sessionTexts, List.mem_cons, List.not_mem_nil, or_false] at h
  rcases h with rfl | rfl | rfl | rfl | rfl | rfl | rfl | rfl
  · exact ⟨400#32, by decide, hmem 0 rfl⟩
  · exact ⟨401#32, by decide, hmem 1 rfl⟩
  · exact ⟨402#32, by decide, hmem 2 rfl⟩
  · exact ⟨10#32, by decide, hmem 6 rfl⟩
  · exact ⟨11#32, by decide, hmem 7 rfl⟩
  · exact ⟨12#32, by decide, hmem 8 rfl⟩
  · exact ⟨13#32, by decide, hmem 9 rfl⟩
  · exact ⟨14#32, by decide, hmem 10 rfl⟩

/-! ## Hang-ups

Once one side has gone the other cannot wait for it any more: its reads return what is left on the
stream and then nothing.  For the client, whose reads are all checked, that is the same as quitting. -/

section Closing

variable {ksAsm : Assembler} {exec : Exec W} {S S' : System W}

/-- Every read of the client is checked, from `connect` on, so at a short one it quits. -/
lemma failStop_connected (exec : Exec W) (glob elements : BitVec 64) (c : ClientState W) :
    FailStop (connected exec glob elements c) :=
  FailStop.write _ (FailStop.write _ (failStop_iteration exec c))

lemma System.Step.right_failStop (h : System.Step ksAsm exec S S') (hright : FailStop S.wire.right) :
    FailStop S'.wire.right := by
  cases h with
  | wire h => exact h.right_failStop hright
  | call => exact hright
  | again _ c => exact failStop_iteration exec c

lemma System.right_failStop_of_steps {n : ℕ} (h : Steps (System.Step ksAsm exec) n S S')
    (hright : FailStop S.wire.right) : FailStop S'.wire.right := by
  induction h with
  | refl S => exact hright
  | tail _ hlast ih => exact hlast.right_failStop (ih hright)

/-- A client that has quit does nothing more, whatever the server still does and whether the connection
closes. -/
lemma System.ClosingStep.right_halt {c : ClientState W} (h : System.ClosingStep ksAsm exec S S')
    (hright : S.wire.right = .halt c) : S'.wire.right = .halt c := by
  cases h with
  | hangup h => exact h.right_halt hright
  | opened h =>
      cases h with
      | wire h => exact h.right_halt hright
      | call => exact hright
      | again => cases hright

/-- **Hang-ups complete nothing.**  When no run on an open connection brings the client out of its loop,
a run on one that can close is such a run as well, unless the client has quit. -/
lemma closing_cases (hright : FailStop S.wire.right)
    (hopened : ∀ n T c, Steps (System.Step ksAsm exec) n S T → T.wire.right ≠ .ret (c, false)) {n : ℕ}
    (h : Steps (System.ClosingStep ksAsm exec) n S S') :
    (∃ m, Steps (System.Step ksAsm exec) m S S') ∨ ∃ c, S'.wire.right = .halt c := by
  induction h with
  | refl S => exact .inl ⟨0, .refl S⟩
  | tail _ hlast ih =>
      rcases ih hright hopened with ⟨m, hrun⟩ | ⟨c, hquit⟩
      · cases hlast with
        | opened hstep => exact .inl ⟨m + 1, hrun.tail hstep⟩
        | hangup hstep =>
            have hfail := System.right_failStop_of_steps hrun hright
            rcases hstep.right_cases hfail with ⟨⟨c, hleft⟩ | ⟨c, hquit⟩, hsame⟩ | hquit
            · exact absurd hleft (hopened m _ c hrun)
            · exact .inr ⟨c, hsame.trans hquit⟩
            · exact .inr hquit
      · exact .inr ⟨c, hlast.right_halt hquit⟩

/-- A client that waits for a server whose program has ended quits. -/
lemma System.Stranded.quits (h : S.Stranded ksAsm exec) (htodo : S.todo = [])
    (hright : FailStop S.wire.right) :
    ∃ n S' c, Steps (System.ClosingStep ksAsm exec) n S S' ∧ S'.wire.right = .halt c := by
  obtain ⟨⟨p, q, l, r⟩, todo⟩ := S
  cases htodo
  rcases h.client with ⟨c, hquit⟩ | ⟨⟨n, k, hread, hn⟩, s, hleft⟩
  · exact ⟨0, _, c, .refl _, hquit⟩
  · cases hread
    cases hleft
    obtain ⟨c, hc⟩ := (if_pos hn).mp (hright [])
    exact ⟨1, _, c, (Steps.refl _).tail (.hangup (.rightEnd (.inr ⟨s, rfl⟩) List.nil_prefix hn)), hc⟩

end Closing

/-! ## The theorem -/

/-- With a text that does not fit, open steps lead to a state in which the client is stuck or has quit. -/
lemma accepted_strands {ksAsm : Assembler}
    (hsize : ∀ str code, ksAsm str = some code → code.length < 2 ^ 31) (exec : Exec W)
    (flagFile : Option (List Byte)) {glob elements : BitVec 64} (s : Server) (c : ClientState W)
    (hfit : ¬Assembles ksAsm elements glob) :
    ∃ n S, Steps (System.Step ksAsm exec) n
      (System.accepted ksAsm exec flagFile glob elements s c) S ∧ S.Stranded ksAsm exec := by
  obtain ⟨str, hstr, hnot⟩ : ∃ str ∈ sessionTexts elements glob,
      ¬∃ code, ksAsm str = some code ∧ code.length ≤ 255 := by
    simpa only [Assembles, not_forall, exists_prop] using hfit
  have hfails : ∀ {idx : BitVec 32} {str : Assembly}, idx.toNat < 500 →
      (¬∃ code, ksAsm str = some code ∧ code.length ≤ 255) →
      (Call.dispatch .new idx str).Fails ksAsm := by
    intro idx str hidx hnot
    refine ⟨hidx, fun code hcode => ⟨?_, hsize str code hcode⟩⟩
    by_contra hshort
    exact hnot ⟨code, hcode, by omega⟩
  have hcalls : ∀ call ∈ loadingCalls elements glob,
      (∃ i payload, call.Stores ksAsm i payload) ∨ call.Fails ksAsm := by
    intro call hcall
    rcases mem_loadingCalls hcall with ⟨idx, str, rfl, hidx, -⟩ | ⟨index, data, rfl, hindex, hlen⟩
    · by_cases hfits : ∃ code, ksAsm str = some code ∧ code.length ≤ 255
      · obtain ⟨code, hcode, hlen⟩ := hfits
        exact Or.inl ⟨_, _, .new hidx hcode hlen⟩
      · exact Or.inr (hfails hidx hfits)
    · exact Or.inl ⟨_, _, .data hindex hlen⟩
  obtain ⟨idx, hidx, hcall⟩ := exists_call_of_text hstr
  have hpointers := pointers_exchange ksAsm exec glob elements s c
    (fun s => (runCalls ksAsm (loadingCalls s.elementsPtr s.globPtr) s).bind
      (runValidation ksAsm flagFile)) []
  obtain ⟨m, T, hstrand, hstranded⟩ := failing_strands exec (s.informed glob elements) c
    (runValidation ksAsm flagFile) hcalls ⟨_, hcall, hfails hidx hnot⟩
  rw [System.accepted, handleConnection_eq_runCalls]
  exact ⟨_, T, hpointers.trans hstrand, hstranded⟩

/-- **A session is completed exactly when its routines fit.**  Whatever the slots do, with any globals
left by earlier connections, and on a connection that closes when a side has gone: there is a run in which
the client is told to leave its loop if and only if every text of the session assembles to at most 255
bytes, and otherwise every run can be continued until the client has quit. -/
theorem connection_completes_iff {ksAsm : Assembler}
    (hsize : ∀ str code, ksAsm str = some code → code.length < 2 ^ 31) (exec : Exec W)
    (flagFile : Option (List Byte)) (glob elements : BitVec 64) (s : Server) (g : Element) (w : W) :
    let S₀ := System.accepted ksAsm exec flagFile glob elements s ⟨g, initialElements, w⟩
    ((∃ n S c, Steps (System.ClosingStep ksAsm exec) n S₀ S ∧ S.wire.right = .ret (c, false)) ↔
      Assembles ksAsm elements glob) ∧
    (¬Assembles ksAsm elements glob → ∀ n S, Steps (System.ClosingStep ksAsm exec) n S₀ S →
      ∃ m S' c, Steps (System.ClosingStep ksAsm exec) m S S' ∧ S'.wire.right = .halt c) := by
  intro S₀
  have hfail : FailStop S₀.wire.right := failStop_connected exec glob elements _
  by_cases hfit : Assembles ksAsm elements glob
  · refine ⟨iff_of_true ?_ hfit, fun hnot => absurd hfit hnot⟩
    have hrun := connection_runs hfit exec flagFile s g w
    exact ⟨_, _, _, hrun.map id fun _ _ h => .opened h, rfl⟩
  · obtain ⟨k, T, hstrand, hstranded⟩ := accepted_strands hsize exec flagFile s
      ⟨g, initialElements, w⟩ hfit
    have hdescent := fun {n : ℕ} {S : System W} (hrun : Steps (System.Step ksAsm exec) n S₀ S) =>
      Steps.descent (System.diamond ksAsm exec) hstrand hstranded.stuck hrun
    -- a client out of its loop stays there, and it is not at the end of the run that strands
    have hopened : ∀ n S c, Steps (System.Step ksAsm exec) n S₀ S → S.wire.right ≠ .ret (c, false) := by
      intro n S c hrun hright
      obtain ⟨m, -, hrest⟩ := hdescent hrun
      exact hstranded.right_ne c (System.right_ret_of_steps hrest hright)
    constructor
    · refine iff_of_false ?_ hfit
      rintro ⟨n, S, c, hrun, hright⟩
      rcases closing_cases hfail hopened hrun with ⟨m, hrun⟩ | ⟨c', hquit⟩
      · exact hopened m S c hrun hright
      · rw [hright] at hquit
        cases hquit
    · intro _ n S hrun
      rcases closing_cases hfail hopened hrun with ⟨m, hrun⟩ | ⟨c, hquit⟩
      · obtain ⟨m', -, hrest⟩ := hdescent hrun
        obtain ⟨m'', S', c, hquits, hquit⟩ := hstranded.quits (System.todo_of_steps hstrand rfl)
          (System.right_failStop_of_steps hstrand hfail)
        exact ⟨_, S', c, (hrest.map id fun _ _ h => .opened h).trans hquits, hquit⟩
      · exact ⟨0, S, c, .refl S, hquit⟩

/-- A session whose texts assemble to one byte each, and one in which none assembles. -/
theorem connection_completes_iff_tags :
    (∃ n S c, Steps (System.ClosingStep tagAssembler answering) n
      (System.accepted tagAssembler answering none desk.globalData desk.elements initialServer
        ⟨Vector.replicate 256 0#8, initialElements, ()⟩) S ∧ S.wire.right = .ret (c, false)) ∧
    ∃ n S c, Steps (System.ClosingStep (fun _ => none) answering) n
      (System.accepted (fun _ => none) answering none desk.globalData desk.elements initialServer
        ⟨Vector.replicate 256 0#8, initialElements, ()⟩) S ∧ S.wire.right = .halt c := by
  constructor
  · refine (connection_completes_iff (fun str code hcode => ?_) answering none desk.globalData
      desk.elements initialServer (Vector.replicate 256 0#8) ()).1.mpr tagAssembles
    obtain ⟨p, -, rfl⟩ := Option.map_eq_some_iff.mp hcode
    exact (by decide : 1 < 2 ^ 31)
  · refine (connection_completes_iff (fun str code hcode => ?_) answering none desk.globalData
      desk.elements initialServer (Vector.replicate 256 0#8) ()).2 ?_ 0 _ (.refl _)
    · cases hcode
    intro hall
    obtain ⟨code, hcode, -⟩ := hall memcpyCode List.mem_cons_self
    cases hcode

end Whuctf.Client
