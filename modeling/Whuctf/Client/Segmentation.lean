import Whuctf.Client.Delivery
import Whuctf.Library.Segmentation

/-!
# Short reads

Neither program reads in a loop.  Each `read` is one call, and what it returns depends on how the
stream happens to be cut on its way.

The client compares the count with the length it asked for and quits when it is smaller, so it is
fail-stop: on a cut stream it ends as on whole reads exactly when no read is short.  The server
does not look at the count.  Its reads ask for the same lengths whatever they return, and they
return the pointers and the elements the client sent exactly when none is short; after a short
one the rest of the element is read in place of the next.

`segmentation_iff` has both halves, for every stream the server's calls can make and every way of
cutting it.

The two halves have different proofs.  For the client it is enough that every one of its reads is
checked (`FailStop`), which the rules for sequences of reads give, operation by operation.  For the
server the lengths it asks for are listed (`Asks`), and a cut that makes one read short shifts every
later one.
-/

namespace Whuctf.Client

open Proc (Asks Cut FailStop NoShortRead)

variable {W : Type}

/-! ## The client stops at a short read

Each operation is a sequence of checked reads.  The lemmas follow the functions of `client.c` up to the
loop, and none of them looks at what is read. -/

lemma failStop_syncGlobalRecv (c : ClientState W) : FailStop (syncGlobalRecv c) := by
  refine FailStop.read (fun bs hlt => ⟨_, if_neg hlt.ne⟩) fun bs _ => ?_
  simp only [Proc.ret_bind]
  split
  · exact FailStop.ret _
  · exact FailStop.halt _

lemma failStop_readInt (c : ClientState W) : FailStop (readInt c) := by
  refine FailStop.read (fun bs hlt => ⟨c, ?_⟩) fun bs _ => ?_
  · match bs with
    | [] => rfl
    | [_] => rfl
    | [_, _] => rfl
    | [_, _, _] => rfl
    | _ :: _ :: _ :: _ :: _ =>
        simp only [List.length_cons] at hlt
        omega
  · rw [Proc.ret_bind]
    split
    · exact FailStop.ret _
    · exact FailStop.halt _

lemma failStop_readIndex (c : ClientState W) : FailStop (readIndex c) := by
  refine (failStop_readInt c).bind fun i => ?_
  split
  · exact FailStop.ret _
  · exact FailStop.halt _

lemma failStop_clientOperationNew (c : ClientState W) : FailStop (clientOperationNew c) := by
  refine (failStop_readIndex c).bind fun i => (failStop_readInt c).bind fun codeLength => ?_
  split
  · exact FailStop.halt _
  · refine FailStop.read (fun bs hlt => ⟨_, if_neg hlt.ne⟩) fun bs _ => ?_
    simp only [Proc.ret_bind]
    split
    · exact FailStop.ret _
    · exact FailStop.halt _

lemma failStop_clientOperation (exec : Exec W) (c : ClientState W) (operation : Byte) :
    FailStop (clientOperation exec c operation) := by
  unfold clientOperation
  split
  · exact (failStop_clientOperationNew c).bind fun _ => FailStop.ret _
  · exact ((failStop_readIndex c).bind fun _ => FailStop.ret _).bind fun _ => FailStop.ret _
  · exact ((failStop_readIndex c).bind fun _ => FailStop.ret _).bind fun _ => FailStop.ret _
  · exact FailStop.ret _

lemma failStop_iteration (exec : Exec W) (c : ClientState W) : FailStop (iteration exec c) := by
  refine (failStop_syncGlobalRecv c).bind fun c => ?_
  refine FailStop.read (fun bs hlt => ⟨c, ?_⟩) fun bs _ => ?_
  · rw [List.length_eq_zero_iff.mp (Nat.lt_one_iff.mp hlt)]
    rfl
  · rw [Proc.ret_bind]
    split
    · rename_i operation _
      refine (failStop_clientOperation exec c operation).bind fun r => ?_
      exact FailStop.write r.1.globalData.toList (FailStop.ret r)
    · exact FailStop.halt _

lemma failStop_mainLoop (exec : Exec W) (fuel : ℕ) (c : ClientState W) :
    FailStop (mainLoop exec fuel c) := by
  induction fuel generalizing c with
  | zero => exact FailStop.ret _
  | succ fuel ih =>
      refine (failStop_iteration exec c).bind fun r => ?_
      split
      · exact ih r.1
      · exact FailStop.ret _

/-! ## What the client makes of whole reads -/

/-- The bytes of calls made in the given states, and of `OPT_EXIT`, one behind the other, as they are
on the stream before it is cut. -/
def sentBytes (ksAsm : Assembler) (sends : List (Server × Call)) (s : Server) : List Byte :=
  (sends.flatMap fun send => (send.2.run ksAsm send.1).emit.1) ++
    ((Call.dispatch .exit 0#32 []).run ksAsm s).emit.1

lemma represents_self (es : Elements) :
    Represents es fun i => if h : i < 500 then es[i] else Element.filler := by
  intro i hi
  exact (dif_pos hi).symm

/-- On whole reads the client takes one pass a call and ends with the pass of `OPT_EXIT`, whatever the
slots that are executed do. -/
lemma inFull_mainLoop {ksAsm : Assembler} (exec : Exec W) {sends : List (Server × Call)}
    (hvalid : ∀ send ∈ sends, send.2.Valid ksAsm) (s : Server) (more : List Byte)
    (c : ClientState W) {fuel : ℕ} (hfuel : sends.length < fuel) :
    ∃ c', (mainLoop exec fuel c).inFull (sentBytes ksAsm sends s ++ more) = .ok (some c') := by
  obtain ⟨passes, rfl⟩ : ∃ passes, fuel = passes + 1 := ⟨fuel - 1, by omega⟩
  induction sends generalizing c passes with
  | nil =>
      have hpass := (exit_pass ksAsm exec s c 0#32 []).consume_eq
      have htaken := Proc.consume_bind_write hpass fun r : ClientState W × Bool =>
        if r.2 then mainLoop exec passes r.1 else pure (some r.1)
      have hbytes : sentBytes ksAsm [] s = ((Call.dispatch .exit 0#32 []).run ksAsm s).emit.1 := by
        simp only [sentBytes, List.flatMap_nil, List.nil_append]
      have hend := Proc.inFull_of_consume htaken more
      rw [Proc.inFull_write, Proc.ret_bind] at hend
      refine ⟨{ c with globalData := s.globalData }, ?_⟩
      rw [hbytes]
      exact hend
  | cons send sends ih =>
      rw [List.length_cons] at hfuel
      obtain ⟨c', n, -, -, hpass⟩ := (hvalid send List.mem_cons_self).one_pass exec send.1 c
        (represents_self c.elements)
      obtain ⟨later, rfl⟩ : ∃ later, passes = later + 1 := ⟨passes - 1, by omega⟩
      obtain ⟨c'', hrest⟩ := ih (fun x hx => hvalid x (List.mem_cons_of_mem _ hx)) c' later
        (by omega)
      have hbytes : sentBytes ksAsm (send :: sends) s ++ more =
          (send.2.run ksAsm send.1).emit.1 ++ (sentBytes ksAsm sends s ++ more) := by
        simp only [sentBytes, List.flatMap_cons, List.append_assoc]
      have htaken := Proc.consume_bind_write hpass.consume_eq fun r : ClientState W × Bool =>
        if r.2 then mainLoop exec (later + 1) r.1 else pure (some r.1)
      have hnext := Proc.inFull_of_consume htaken (sentBytes ksAsm sends s ++ more)
      rw [Proc.inFull_write, Proc.ret_bind, if_pos rfl, List.nil_append, hrest] at hnext
      refine ⟨c'', ?_⟩
      rw [hbytes]
      exact hnext

/-! ## What the server asks for

The lengths asked for do not depend on the data: the sizes of the two pointers, then one element for
each call.  So the list of a connection is known before anything is sent. -/

lemma asks_readEcho (s : Server) : Asks (readEcho s) [256] := ⟨[], rfl, fun _ => rfl⟩

lemma asks_operationDispatcher (ksAsm : Assembler) (s : Server) (opt : Opt) (idx : BitVec 32)
    (str : Assembly) : Asks (operationDispatcher ksAsm s opt idx str) [256] := by
  have hannounce : Asks (announce ksAsm s opt idx str) [] := by
    cases opt with
    | new =>
        unfold announce operationNew
        cases ksAsm str with
        | none => trivial
        | some result => rfl
    | del => rfl
    | exec => rfl
    | exit => rfl
  exact Asks.bind hannounce fun _ => asks_readEcho s

lemma asks_operationWriteData (s : Server) (index : BitVec 32) (data : List Byte) :
    Asks (operationWriteData s index data) [256] := asks_readEcho s

lemma asks_readPointers (s : Server) : Asks (readPointers s) [8, 8] :=
  ⟨[8], rfl, fun _ => ⟨[], rfl, fun _ => rfl⟩⟩

lemma asks_setupBuiltinFunctions (ksAsm : Assembler) (s : Server) :
    Asks (setupBuiltinFunctions ksAsm s) (List.replicate 3 256) :=
  (asks_operationDispatcher ksAsm s .new _ _).bind fun s =>
    (asks_operationDispatcher ksAsm s .new _ _).bind fun s =>
      asks_operationDispatcher ksAsm s .new _ _

lemma asks_loadExecutableFunctions (ksAsm : Assembler) (s : Server) :
    Asks (loadExecutableFunctions ksAsm s) (List.replicate 10 256) :=
  (asks_operationWriteData s _ _).bind fun s =>
    (asks_operationWriteData s _ _).bind fun s =>
      (asks_operationWriteData s _ _).bind fun s =>
        (asks_operationDispatcher ksAsm s .new _ _).bind fun s =>
          (asks_operationDispatcher ksAsm s .new _ _).bind fun s =>
            (asks_operationDispatcher ksAsm s .new _ _).bind fun s =>
              (asks_operationDispatcher ksAsm s .new _ _).bind fun s =>
                (asks_operationDispatcher ksAsm s .new _ _).bind fun s =>
                  (asks_operationWriteData s _ _).bind fun s => asks_operationWriteData s _ _

lemma asks_runValidation (ksAsm : Assembler) (flagFile : Option (List Byte)) (s : Server) :
    Asks (runValidation ksAsm flagFile s) (List.replicate 3 256) :=
  (asks_operationDispatcher ksAsm s .exec _ []).bind fun _ =>
    (asks_operationDispatcher ksAsm _ .exec _ []).bind fun _ =>
      asks_operationDispatcher ksAsm _ .exit _ []

/-- A connection asks for the two pointers, eight bytes each, and for sixteen elements, one behind each
call; `OPT_EXIT` is such a call as well. -/
lemma asks_handleConnection (ksAsm : Assembler) (flagFile : Option (List Byte)) (s : Server) :
    Asks (handleConnection ksAsm flagFile s) (8 :: 8 :: List.replicate 16 256) :=
  (asks_readPointers s).bind fun s =>
    (asks_setupBuiltinFunctions ksAsm s).bind fun s =>
      (asks_loadExecutableFunctions ksAsm s).bind fun s => asks_runValidation ksAsm flagFile s

/-- Behind its writes a call reads the client's element once: it stores the whole of it exactly
when the read is not short. -/
lemma echo_iff {ksAsm : Assembler} {call : Call} {s : Server}
    (hemit : (call.run ksAsm s).emit.2 = readEcho s) (echo : Element) {more : List Byte}
    {script : List (List Byte)} (hcut : Cut (call.run ksAsm s) (echo.toList ++ more) script) :
    (((call.run ksAsm s).replay script).result = .ok { s with globalData := echo } ∧
      script = [echo.toList]) ↔ NoShortRead (call.run ksAsm s) script := by
  have hread := hcut.emit
  rw [← Proc.result_emit, ← Proc.noShortRead_emit, hemit]
  rw [hemit] at hread
  generalize hstream : echo.toList ++ more = stream at hread
  cases hread with
  | @read _ _ piece rest script hlen hpos hrest =>
      cases hrest
      constructor
      · rintro ⟨-, hpiece⟩
        rw [hpiece]
        exact ⟨Vector.length_toList, trivial⟩
      · rintro ⟨hlength, -⟩
        have hpiece : piece = echo.toList :=
          (List.append_inj hstream (Vector.length_toList.trans hlength.symm)).1.symm
        subst hpiece
        refine ⟨?_, rfl⟩
        have htake : echo.toList.take 256 = echo.toList := List.take_of_length_le hlen
        have hresult : ((readEcho s).replay [echo.toList]).result =
            .ok { s with globalData := s.globalData.overwrite (echo.toList.take 256) } := rfl
        rw [hresult, htake, Element.overwrite_toList]

/-! ## Both programs on cut streams

A cut says what each read returns, at least one byte and at most as many as it asked for, as long as
the stream has any left.  Where the stream is cut is thereby independent of where the messages in it
begin and end. -/

/-- **Exactly without short reads.**  For every sequence of valid calls ended by `OPT_EXIT`, every
state of the two programs and every cut of the streams between them:

- the client's loop, on reads that return all they ask for, ends with `OPT_EXIT`;
- it ends in the same state on a cut stream if and only if no read is short;
- the reads of a connection of the server return the pointers and the elements the client sent if
  and only if none is short, and so does each call store the client's element. -/
theorem segmentation_iff {ksAsm : Assembler} (flagFile : Option (List Byte)) (exec : Exec W)
    {sends : List (Server × Call)} (hvalid : ∀ send ∈ sends, send.2.Valid ksAsm) (s : Server)
    (more : List Byte) (c : ClientState W) {fuel : ℕ} (hfuel : sends.length < fuel) :
    (∃ c', (mainLoop exec fuel c).inFull (sentBytes ksAsm sends s ++ more) = .ok (some c')) ∧
    (∀ script, Cut (mainLoop exec fuel c) (sentBytes ksAsm sends s ++ more) script →
      (((mainLoop exec fuel c).replay script).result =
          (mainLoop exec fuel c).inFull (sentBytes ksAsm sends s ++ more) ↔
        NoShortRead (mainLoop exec fuel c) script)) ∧
    (∀ (pointer₁ pointer₂ : Vector Byte 8) (echoes : List Element) (script : List (List Byte)),
      echoes.length = 16 →
      Cut (handleConnection ksAsm flagFile s)
        ((pointer₁.toList :: pointer₂.toList :: echoes.map Vector.toList).flatten ++ more) script →
      (script <+: pointer₁.toList :: pointer₂.toList :: echoes.map Vector.toList ↔
        NoShortRead (handleConnection ksAsm flagFile s) script)) ∧
    ∀ (call : Call) (echo : Element) (script : List (List Byte)),
      (call.run ksAsm s).emit.2 = readEcho s →
      Cut (call.run ksAsm s) (echo.toList ++ more) script →
      ((((call.run ksAsm s).replay script).result = .ok { s with globalData := echo } ∧
        script = [echo.toList]) ↔ NoShortRead (call.run ksAsm s) script) := by
  obtain ⟨c', hfull⟩ := inFull_mainLoop exec hvalid s more c hfuel
  refine ⟨⟨c', hfull⟩, fun script hcut => ?_, fun pointer₁ pointer₂ echoes script hcount hcut => ?_,
    fun call echo script hemit hcut => echo_iff hemit echo hcut⟩
  · exact (failStop_mainLoop exec fuel c).result_eq_iff hcut hfull
  · refine (asks_handleConnection ksAsm flagFile s).prefix_iff ?_ hcut
    have hlengths : (echoes.map Vector.toList).map List.length = List.replicate 16 256 := by
      rw [List.map_map, ← hcount]
      exact List.map_eq_replicate_iff.mpr fun echo _ => Vector.length_toList
    rw [List.map_cons, List.map_cons, hlengths, Vector.length_toList, Vector.length_toList]

/-- Slots whose code does nothing, so that an executed slot sends back the element it was given. -/
def idle : Exec Unit := fun w _ _ g => (g, w)

/-- One write, before `OPT_EXIT`: a single byte for slot 7. -/
def oneSend : List (Server × Call) := [(initialServer, .writeData 7#32 [1#8])]

/-- The bytes of one write and the exit, as they arrive at the client when nothing is cut. -/
def oneSendBytes : List Byte := sentBytes emptyAssembler oneSend initialServer ++ []

theorem segmentation_iff_oneSend :
    ((mainLoop idle 2 initialClient).replay ((mainLoop idle 2 initialClient).whole
        oneSendBytes)).result = (mainLoop idle 2 initialClient).inFull oneSendBytes ↔
      NoShortRead (mainLoop idle 2 initialClient)
        ((mainLoop idle 2 initialClient).whole oneSendBytes) := by
  have hvalid : ∀ send ∈ oneSend, send.2.Valid emptyAssembler := by
    intro send hsend
    rw [List.mem_singleton.mp hsend]
    exact ⟨by decide, by decide⟩
  exact (segmentation_iff none idle hvalid initialServer [] initialClient (Nat.lt_succ_self 1)).2.1 _
    (Proc.cut_whole _ _)

lemma length_sentBytes_nil (ksAsm : Assembler) (s : Server) :
    (sentBytes ksAsm [] s).length = 257 := by
  have hbytes : sentBytes ksAsm [] s = s.globalData.toList ++ [3#8] := rfl
  rw [hbytes, List.length_append, Vector.length_toList]
  rfl

/-- **A cut in a block ends the client.**  When the first read of the element that comes with
`OPT_EXIT` returns 255 bytes, the client quits, where on whole reads it leaves its loop. -/
theorem cut_block_ends_client :
    ¬∀ script, Cut (mainLoop idle 1 initialClient) (sentBytes emptyAssembler [] initialServer)
        script →
      ((mainLoop idle 1 initialClient).replay script).result =
        (mainLoop idle 1 initialClient).inFull (sentBytes emptyAssembler [] initialServer) := by
  intro hall
  have hvalid : ∀ send ∈ ([] : List (Server × Call)), send.2.Valid emptyAssembler :=
    fun send h => absurd h List.not_mem_nil
  obtain ⟨c', hfull⟩ := inFull_mainLoop idle hvalid initialServer [] initialClient
    (Nat.lt_succ_self _)
  have hlength := length_sentBytes_nil emptyAssembler initialServer
  rw [List.append_nil] at hfull
  generalize sentBytes emptyAssembler [] initialServer = stream at hall hfull hlength
  obtain ⟨k, hk⟩ : ∃ k, mainLoop idle 1 initialClient = .read 256 k := ⟨_, rfl⟩
  have hstop := failStop_mainLoop idle 1 initialClient
  have hpiece : (stream.take 255).length = 255 := by
    rw [List.length_take, hlength]
    rfl
  rw [hk] at hall hstop
  obtain ⟨hcut, quit, hquit⟩ := hstop.cut_short (List.ne_nil_of_length_pos (by omega))
    (show (stream.take 255).length < 256 by omega) (stream.drop 255)
  rw [List.take_append_drop] at hcut
  have hsame := hall _ hcut
  rw [hquit, ← hk] at hsame
  cases hsame.trans hfull

end Whuctf.Client
