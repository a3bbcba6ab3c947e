import Whuctf.Client.Delivery
import Whuctf.Client.Placement

/-!
# A whole connection

`main` of the client against the body of the server's accept loop, from `connect` and `accept` to
`close`: the two pointers go one way, thirteen operations load the slots, two run them, and
`OPT_EXIT` ends the loop.  The two sides take their steps in any order.

A call that stores a payload is one pass of the client's loop, which leaves the server's
`global_data` as it was (`store_exchange`).  So when every text of the session assembles into a slot,
the connection comes to one end whatever the interleaving, with the slots those of `loadedSlots` and
nothing of an earlier connection left but `global_data` (`connection_ends`).

The bound is counted from the two programs: every pass of the loop that stores is a fixed number of
reads and writes on either side, and the sizes of the texts do not enter it.  That the state reached is
one and the same for all interleavings is the diamond property of the protocol library, so one run,
written out pass by pass, speaks for all of them.
-/

namespace Whuctf.Client

open Proc (Takes send)

variable {W : Type}

/-! ## The two programs

The client is its `main` from the moment `connect` has returned, the server the body of its accept loop
from the moment `accept` has.  What the server does to the slots is also written as a list of calls,
because the proofs go along that list. -/

/-- `main` of the client behind `connect`: its two pointers, and the first pass of its loop. -/
def connected (exec : Exec W) (glob elements : BitVec 64) (c : ClientState W) :
    Proc (ClientState W) (ClientState W × Bool) := do
  send (X86.bytes64 glob)
  send (X86.bytes64 elements)
  iteration exec c

/-- The connection when it has been accepted: both processes at their start, and nothing in flight. -/
def System.accepted (ksAsm : Assembler) (exec : Exec W) (flagFile : Option (List Byte))
    (glob elements : BitVec 64) (s : Server) (c : ClientState W) : System W :=
  ⟨⟨handleConnection ksAsm flagFile s, connected exec glob elements c, [], []⟩, []⟩

/-- The calls of `setup_builtin_functions`, in the order of the source: the three routines in slots 400
to 402 that the others call. -/
def builtinCalls : List Call :=
  [ .dispatch .new 400#32 memcpyCode,
    .dispatch .new 401#32 memcmpCode,
    .dispatch .new 402#32 strlenCode ]

/-- The calls of `load_executable_functions`, in the order of the source: the texts of slots 10 to 14,
with the client's pointers printed into those that need them, and the data and strings they work on. -/
def executableCalls (elements glob : BitVec 64) : List Call :=
  [ .writeData 7#32 shippedAnswer,
    .writeData 8#32 (shippedKey ++ [0#8]),
    .writeData 9#32 (promptText ++ [0#8]),
    .dispatch .new 10#32 (inputCode elements glob),
    .dispatch .new 11#32 encryptCode,
    .dispatch .new 12#32 decryptCode,
    .dispatch .new 13#32 (validationCode elements glob),
    .dispatch .new 14#32 (mainCode elements),
    .writeData 200#32 (rightText ++ [0#8]),
    .writeData 300#32 (wrongText ++ [0#8]) ]

/-- The calls that load the slots, before anything is executed: those of `setup_builtin_functions` and
then those of `load_executable_functions`. -/
def loadingCalls (elements glob : BitVec 64) : List Call :=
  builtinCalls ++ executableCalls elements glob

/-- Calls one after the other, each on the globals the one before has left.  The first text that does
not assemble ends the program, as `exit` does in the server. -/
def runCalls (ksAsm : Assembler) : List Call → Server → Proc Server Server
  | [], s => pure s
  | call :: rest, s => do
      let s ← call.run ksAsm s
      runCalls ksAsm rest s

/-! ## Calls in sequence -/

lemma runCalls_append (ksAsm : Assembler) (calls rest : List Call) (s : Server) :
    runCalls ksAsm (calls ++ rest) s = (runCalls ksAsm calls s).bind (runCalls ksAsm rest) := by
  induction calls generalizing s with
  | nil => rfl
  | cons call calls ih =>
      rw [List.cons_append, runCalls, runCalls, Proc.monad_bind_eq, Proc.monad_bind_eq,
        Proc.bind_assoc]
      exact congrArg _ (funext ih)

lemma setupBuiltinFunctions_eq (ksAsm : Assembler) (s : Server) :
    setupBuiltinFunctions ksAsm s = runCalls ksAsm builtinCalls s := by
  simp only [setupBuiltinFunctions, builtinCalls, runCalls, Call.run, operationDispatcher, readEcho,
    Proc.receive, Proc.monad_bind_eq, Proc.monad_pure_eq, Proc.bind_assoc, Proc.read_bind,
    Proc.ret_bind]

/-- The pointers printed into the texts are those of the start, since no operation changes them. -/
lemma loadExecutableFunctions_eq (ksAsm : Assembler) (s : Server) :
    loadExecutableFunctions ksAsm s =
      runCalls ksAsm (executableCalls s.elementsPtr s.globPtr) s := by
  simp only [loadExecutableFunctions, executableCalls, runCalls, Call.run, operationDispatcher,
    operationWriteString, operationWriteData, readEcho, Proc.receive, Proc.send,
    Proc.monad_bind_eq, Proc.monad_pure_eq, Proc.bind_assoc, Proc.read_bind, Proc.write_bind,
    Proc.ret_bind]

/-- The pointers are read, the slots loaded, and the reply validated. -/
lemma handleConnection_eq_runCalls (ksAsm : Assembler) (flagFile : Option (List Byte)) (s : Server) :
    handleConnection ksAsm flagFile s = (readPointers s).bind fun s =>
      (runCalls ksAsm (loadingCalls s.elementsPtr s.globPtr) s).bind (runValidation ksAsm flagFile) := by
  rw [handleConnection, Proc.monad_bind_eq]
  refine congrArg _ (funext fun s => ?_)
  rw [loadingCalls, runCalls_append, Proc.bind_assoc]
  simp only [setupBuiltinFunctions_eq, loadExecutableFunctions_eq, builtinCalls, runCalls, Call.run,
    operationDispatcher, readEcho, Proc.receive, Proc.monad_bind_eq, Proc.monad_pure_eq,
    Proc.bind_assoc, Proc.read_bind, Proc.ret_bind]

/-! ## Loading the slots

One call that stores a payload meets one pass of the client's loop.  The two proceed in lockstep, so
the exchange of a whole list is an induction on the list with the exchange of one call as its step. -/

/-- A call stores a payload of at most 255 bytes at the start of a slot.  The payload is what the
assembler makes of a text, or the bytes of the call themselves; a longer one would be refused by the
client. -/
inductive Call.Stores (ksAsm : Assembler) : Call → Fin 500 → List Byte → Prop
  | new {idx : BitVec 32} {str : Assembly} {code : List Byte} (hidx : idx.toNat < 500)
      (hcode : ksAsm str = some code) (hlen : code.length ≤ 255) :
      Stores ksAsm (.dispatch .new idx str) ⟨idx.toNat, hidx⟩ code
  | data {index : BitVec 32} {data : List Byte} (hindex : index.toNat < 500)
      (hlen : data.length ≤ 255) : Stores ksAsm (.writeData index data) ⟨index.toNat, hindex⟩ data

/-- The slots after a payload has been stored: the bytes at the start of its slot, with the rest of the
slot and all other slots as they were. -/
def storePayload (es : Elements) (p : Fin 500 × List Byte) : Elements :=
  es.set p.1 ((es.get p.1).overwrite p.2)

/-- One call that stores, and one pass of the loop: thirteen steps take the payload into its slot, and
bring the element of the server to the client and back. -/
lemma store_exchange {ksAsm : Assembler} {call : Call} {i : Fin 500} {payload : List Byte}
    (h : call.Stores ksAsm i payload) (exec : Exec W) (s : Server) (c : ClientState W)
    (f : Server → Proc Server Server) (todo : List Turn) :
    Steps (System.Step ksAsm exec) 13
      ⟨⟨(call.run ksAsm s).bind f, iteration exec c, [], []⟩, todo⟩
      ⟨⟨f s, iteration exec ⟨s.globalData, storePayload c.elements (i, payload), c.world⟩, [], []⟩,
        todo⟩ := by
  set c' : ClientState W := ⟨s.globalData, storePayload c.elements (i, payload), c.world⟩ with hc'
  -- the bytes of the call, whichever of the two functions makes it
  obtain ⟨index, hindex, hi, hlen, hemit, hwrites⟩ : ∃ (index : BitVec 32)
      (hindex : index.toNat < 500), i = ⟨index.toNat, hindex⟩ ∧ payload.length ≤ 255 ∧
      (call.run ksAsm s).emit = (s.globalData.toList ++ ([0#8] ++ (Word32.bytesLE index ++
        (Word32.bytesLE (BitVec.ofNat 32 payload.length) ++ (payload ++ [])))), readEcho s) ∧
      (call.run ksAsm s).writes = 5 := by
    cases h with
    | @new idx str code hidx hcode hlen =>
        refine ⟨idx, hidx, rfl, hlen, ?_, ?_⟩
        · simp only [Call.run, operationDispatcher, announce, operationNew, hcode]
          rfl
        · simp only [Call.run, operationDispatcher, announce, operationNew, hcode]
          rfl
    | @data index data hindex hlen => exact ⟨index, hindex, rfl, hlen, rfl, rfl⟩
  subst hi
  have hpass : Takes (iteration exec c) (s.globalData.toList ++ ([0#8] ++ (Word32.bytesLE index ++
      (Word32.bytesLE (BitVec.ofNat 32 payload.length) ++ (payload ++ []))))) 5
      (.write c'.globalData.toList (.ret (c', true))) [] :=
    takes_iteration exec c s.globalData 0#8
      (Takes.bind (m := 0) (takes_clientOperationNew { c with globalData := s.globalData } hindex
        hlen []) (Takes.ret _ _))
  have hwire := Duplex.exchange (Proc.emit_bind_read hemit f) hpass (Vector.length_toList)
  have hecho := Element.overwrite_toList s.globalData s.globalData
  simp only [Proc.writes_bind_read hemit f, hwrites, hc', Proc.monad_pure_eq, Proc.ret_bind, hecho]
    at hwire
  exact (hwire.map (fun d => (⟨d, todo⟩ : System W)) fun _ _ h => .wire h).tail
    (.again _ c' [] [] todo)

/-- Calls that store are passes of the loop, one each: the slots are folded over the payloads, and
`global_data` goes back and forth unchanged. -/
lemma storeCalls_exchange {ksAsm : Assembler} {calls : List Call}
    {payloads : List (Fin 500 × List Byte)}
    (h : List.Forall₂ (fun call p => Call.Stores ksAsm call p.1 p.2) calls payloads)
    (exec : Exec W) (s : Server) (es : Elements) (w : W) (f : Server → Proc Server Server)
    (todo : List Turn) :
    Steps (System.Step ksAsm exec) (13 * calls.length)
      ⟨⟨(runCalls ksAsm calls s).bind f, iteration exec ⟨s.globalData, es, w⟩, [], []⟩, todo⟩
      ⟨⟨f s, iteration exec ⟨s.globalData, payloads.foldl storePayload es, w⟩, [], []⟩, todo⟩ := by
  induction h generalizing es with
  | nil => exact .refl _
  | @cons call p calls payloads hcall hrest ih =>
      have hfirst := store_exchange hcall exec s ⟨s.globalData, es, w⟩
        (fun s => (runCalls ksAsm calls s).bind f) todo
      rw [runCalls, Proc.monad_bind_eq, Proc.bind_assoc, List.length_cons, Nat.mul_succ,
        Nat.add_comm, List.foldl_cons]
      exact hfirst.trans (ih (storePayload es p))

/-- The first of them brings the client the server's element, whatever it had before. -/
lemma firstCalls_exchange {ksAsm : Assembler} {calls : List Call}
    {payloads : List (Fin 500 × List Byte)}
    (h : List.Forall₂ (fun call p => Call.Stores ksAsm call p.1 p.2) calls payloads)
    (hcalls : calls ≠ []) (exec : Exec W) (s : Server) (c : ClientState W)
    (f : Server → Proc Server Server) (todo : List Turn) :
    Steps (System.Step ksAsm exec) (13 * calls.length)
      ⟨⟨(runCalls ksAsm calls s).bind f, iteration exec c, [], []⟩, todo⟩
      ⟨⟨f s, iteration exec ⟨s.globalData, payloads.foldl storePayload c.elements, c.world⟩, [], []⟩,
        todo⟩ := by
  cases h with
  | nil => exact absurd rfl hcalls
  | @cons call p calls payloads hcall hrest =>
      have hfirst := store_exchange hcall exec s c (fun s => (runCalls ksAsm calls s).bind f) todo
      rw [runCalls, Proc.monad_bind_eq, Proc.bind_assoc, List.length_cons, Nat.mul_succ,
        Nat.add_comm, List.foldl_cons]
      exact hfirst.trans (storeCalls_exchange hrest exec s (storePayload c.elements p) c.world f todo)

/-! ## The slots of the session

The slots are given twice: as the fold of the payloads over an array of `ret`, which is what the
exchange produces, and slot by slot, which is what a statement about one routine needs.  The two agree
because no slot is stored to twice. -/

/-- The texts of the session: the built-in routines and the routines of the check-in, with the pointers
of this client printed into the latter. -/
def sessionTexts (elements glob : BitVec 64) : List Assembly :=
  [ memcpyCode, memcmpCode, strlenCode, inputCode elements glob, encryptCode, decryptCode,
    validationCode elements glob, mainCode elements ]

/-- Every text of the session assembles to at most 255 bytes. -/
def Assembles (ksAsm : Assembler) (elements glob : BitVec 64) : Prop :=
  ∀ str ∈ sessionTexts elements glob, ∃ code, ksAsm str = some code ∧ code.length ≤ 255

/-- What the session stores, in order: the slot and the bytes.  A text the assembler refuses counts as
no bytes, which `Assembles` excludes. -/
def sessionPayloads (ksAsm : Assembler) (elements glob : BitVec 64) :
    List (Fin 500 × List Byte) :=
  [ (400, (ksAsm memcpyCode).getD []),
    (401, (ksAsm memcmpCode).getD []),
    (402, (ksAsm strlenCode).getD []),
    (7, shippedAnswer),
    (8, shippedKey ++ [0#8]),
    (9, promptText ++ [0#8]),
    (10, (ksAsm (inputCode elements glob)).getD []),
    (11, (ksAsm encryptCode).getD []),
    (12, (ksAsm decryptCode).getD []),
    (13, (ksAsm (validationCode elements glob)).getD []),
    (14, (ksAsm (mainCode elements)).getD []),
    (200, rightText ++ [0#8]),
    (300, wrongText ++ [0#8]) ]

/-- The slots after `load_executable_functions`: a payload and `ret` behind it, or all `ret`. -/
def loadedSlots (ksAsm : Assembler) (elements glob : BitVec 64) : Elements :=
  Vector.ofFn fun i =>
    Element.filler.overwrite (((sessionPayloads ksAsm elements glob).lookup i).getD [])

lemma get_storePayload (es : Elements) (p : Fin 500 × List Byte) (i : Fin 500) :
    (storePayload es p).get i = if i = p.1 then (es.get i).overwrite p.2 else es.get i := by
  change (es.set p.1 ((es.get p.1).overwrite p.2))[(i : ℕ)] = _
  by_cases hi : i = p.1
  · subst hi
    rw [if_pos rfl, Vector.getElem_set_self]
  · have hne : (p.1 : ℕ) ≠ i := fun h => hi (Fin.ext h.symm)
    rw [if_neg hi, Vector.getElem_set_ne _ _ hne]
    rfl

lemma get_foldl_storePayload (payloads : List (Fin 500 × List Byte)) (es : Elements)
    (hnodup : (payloads.map Prod.fst).Nodup) (i : Fin 500) :
    (payloads.foldl storePayload es).get i = (es.get i).overwrite ((payloads.lookup i).getD []) := by
  induction payloads generalizing es with
  | nil => exact (Element.overwrite_nil _).symm
  | cons p payloads ih =>
      rw [List.map_cons, List.nodup_cons] at hnodup
      obtain ⟨hfresh, hrest⟩ := hnodup
      rw [List.foldl_cons, ih _ hrest, get_storePayload, List.lookup_cons]
      by_cases hi : i = p.1
      · subst hi
        have hnone : payloads.lookup p.1 = none := by
          rw [List.lookup_eq_none_iff]
          intro q hq
          have hne : p.1 ≠ q.1 := fun h => hfresh (h ▸ List.mem_map_of_mem hq)
          simpa using hne
        rw [if_pos rfl, hnone]
        simp
      · rw [if_neg hi, beq_false_of_ne hi]

lemma foldl_sessionPayloads (ksAsm : Assembler) (elements glob : BitVec 64) :
    (sessionPayloads ksAsm elements glob).foldl storePayload initialElements =
      loadedSlots ksAsm elements glob := by
  apply Vector.ext
  intro i hi
  have hnodup : ((sessionPayloads ksAsm elements glob).map Prod.fst).Nodup := by
    change ([400, 401, 402, 7, 8, 9, 10, 11, 12, 13, 14, 200, 300] : List (Fin 500)).Nodup
    decide
  have hget := get_foldl_storePayload _ initialElements hnodup ⟨i, hi⟩
  have hfill : initialElements.get ⟨i, hi⟩ = Element.filler := by
    change initialElements[i] = _
    rw [initialElements, Vector.getElem_replicate]
  rw [hfill] at hget
  rw [loadedSlots, Vector.getElem_ofFn]
  exact hget

lemma loadingCalls_store {ksAsm : Assembler} {elements glob : BitVec 64}
    (h : Assembles ksAsm elements glob) :
    List.Forall₂ (fun call p => Call.Stores ksAsm call p.1 p.2) (loadingCalls elements glob)
      (sessionPayloads ksAsm elements glob) := by
  have htext : ∀ str ∈ sessionTexts elements glob, ∀ idx : BitVec 32, ∀ hidx : idx.toNat < 500,
      Call.Stores ksAsm (.dispatch .new idx str) ⟨idx.toNat, hidx⟩ ((ksAsm str).getD []) := by
    intro str hstr idx hidx
    obtain ⟨code, hcode, hlen⟩ := h str hstr
    rw [hcode]
    exact .new hidx hcode hlen
  simp only [sessionTexts, List.forall_mem_cons] at htext
  obtain ⟨hmemcpy, hmemcmp, hstrlen, hinput, hencrypt, hdecrypt, hvalidation, hmain, -⟩ := htext
  exact .cons (hmemcpy 400#32 (by decide)) <| .cons (hmemcmp 401#32 (by decide)) <|
    .cons (hstrlen 402#32 (by decide)) <| .cons (.data (by decide) (by decide)) <|
    .cons (.data (by decide) (by decide)) <| .cons (.data (by decide) (by decide)) <|
    .cons (hinput 10#32 (by decide)) <| .cons (hencrypt 11#32 (by decide)) <|
    .cons (hdecrypt 12#32 (by decide)) <| .cons (hvalidation 13#32 (by decide)) <|
    .cons (hmain 14#32 (by decide)) <| .cons (.data (by decide) (by decide)) <|
    .cons (.data (by decide) (by decide)) .nil

/-! ## The pointers -/

lemma patchPointer_bytes64 (p q : BitVec 64) : patchPointer p (X86.bytes64 q) = q :=
  X86.load64_store64 _ 0#64 q

/-- The pointers go over, and the client comes to its first read.  The server has patched the eight
bytes of each over what an earlier connection had left in its globals. -/
lemma pointers_exchange (ksAsm : Assembler) (exec : Exec W) (glob elements : BitVec 64) (s : Server)
    (c : ClientState W) (f : Server → Proc Server Server) (todo : List Turn) :
    Steps (System.Step ksAsm exec) 4
      ⟨⟨(readPointers s).bind f, connected exec glob elements c, [], []⟩, todo⟩
      ⟨⟨f { s with globPtr := glob, elementsPtr := elements }, iteration exec c, [], []⟩, todo⟩ := by
  have hglob : (X86.bytes64 glob).length = 8 := X86.length_bytes64 glob
  have helements : (X86.bytes64 elements).length = 8 := X86.length_bytes64 elements
  let client : Proc (ClientState W) (ClientState W × Bool) := iteration exec c
  let second (bs : List Byte) : Proc Server Server :=
    .read 8 fun cs => f { s with globPtr := patchPointer s.globPtr bs,
                                 elementsPtr := patchPointer s.elementsPtr cs }
  have hwire : Steps Duplex.Step 4
      ⟨.read 8 second, .write (X86.bytes64 glob) (.write (X86.bytes64 elements) client), [], []⟩
      ⟨f { s with globPtr := glob, elementsPtr := elements }, client, [], []⟩ := by
    have hfirst := Duplex.Step.leftRead_append second client (X86.bytes64 elements) [] hglob.ge
    rw [List.take_of_length_le hglob.le, List.drop_of_length_le hglob.le, List.nil_append] at hfirst
    simp only [second, patchPointer_bytes64] at hfirst
    have hsecond := Duplex.Step.leftRead 8 (fun cs => f { s with
      globPtr := glob, elementsPtr := patchPointer s.elementsPtr cs }) client
      (X86.bytes64 elements) [] helements.ge
    rw [List.take_of_length_le helements.le, List.drop_of_length_le helements.le,
      patchPointer_bytes64] at hsecond
    exact (((Steps.refl _).tail (.rightWrite _ _ _ [] [])).tail (.rightWrite _ _ _ _ [])).tail hfirst
      |>.tail hsecond
  exact hwire.map (fun d => (⟨d, todo⟩ : System W)) fun _ _ h => .wire h

/-! ## The connection

One run is written out, exchange by exchange.  Since steps of the two sides commute, it speaks for all
interleavings. -/

/-- The server when the slots have been loaded: the two pointers are those of this client, and
`global_data` is what an earlier connection has left in it. -/
def Server.informed (s : Server) (glob elements : BitVec 64) : Server :=
  { s with globPtr := glob, elementsPtr := elements }

/-- One run takes a connection to its end: the pointers, the passes that load the slots, the two that
execute, and the one that closes. -/
lemma connection_runs {ksAsm : Assembler} {elements glob : BitVec 64}
    (h : Assembles ksAsm elements glob) (exec : Exec W) (flagFile : Option (List Byte))
    (s : Server) (g : Element) (w : W) :
    Steps (System.Step ksAsm exec) 197
      (System.accepted ksAsm exec flagFile glob elements s ⟨g, initialElements, w⟩)
      (System.validated exec flagFile (s.informed glob elements)
        ⟨s.globalData, loadedSlots ksAsm elements glob, w⟩) := by
  have hpointers := pointers_exchange ksAsm exec glob elements s ⟨g, initialElements, w⟩ (fun s =>
    (runCalls ksAsm (loadingCalls s.elementsPtr s.globPtr) s).bind (runValidation ksAsm flagFile)) []
  have hloading := firstCalls_exchange (loadingCalls_store h) (by simp [loadingCalls, builtinCalls])
    exec (s.informed glob elements) ⟨g, initialElements, w⟩ (runValidation ksAsm flagFile) []
  rw [foldl_sessionPayloads] at hloading
  have hvalidation := session_ends ksAsm exec flagFile (s.informed glob elements)
    ⟨s.globalData, loadedSlots ksAsm elements glob, w⟩
  rw [System.accepted, handleConnection_eq_runCalls]
  exact hpointers.trans (hloading.trans hvalidation)

/-- **Every connection comes to one end.**  When every text of the session assembles to at most 255
bytes, and whatever an earlier connection left in the server's globals, whatever the executed slots
do and however the two sides interleave: a run is over after at most 197 steps, and can be continued
to the one state in which both sides are done, nothing is in flight, and the slots hold the payloads
of the session with `ret` behind them. -/
theorem connection_ends {ksAsm : Assembler} {elements glob : BitVec 64}
    (h : Assembles ksAsm elements glob) (exec : Exec W) (flagFile : Option (List Byte))
    (s : Server) (g : Element) (w : W) {n : ℕ} {S : System W}
    (hrun : Steps (System.Step ksAsm exec) n
      (System.accepted ksAsm exec flagFile glob elements s ⟨g, initialElements, w⟩) S) :
    let s' := s.informed glob elements
    let c' : ClientState W := ⟨s.globalData, loadedSlots ksAsm elements glob, w⟩
    n ≤ 197 ∧ Steps (System.Step ksAsm exec) (197 - n) S (System.validated exec flagFile s' c') ∧
      ∀ S', ¬System.Step ksAsm exec (System.validated exec flagFile s' c') S' := by
  intro s' c'
  have hstuck := System.validated_stuck ksAsm exec flagFile s' c'
  obtain ⟨k, hk, hrest⟩ := Steps.descent (System.diamond ksAsm exec)
    (connection_runs h exec flagFile s g w) hstuck hrun
  obtain rfl : k = 197 - n := by omega
  exact ⟨by omega, hrest, hstuck⟩

lemma desk_apart : Memory.Apart 0x400000#64 256 0x100000#64 (256 * 500) :=
  (X86.apart_of_le (by decide) (by decide)).symm

/-- A client with its slots at `0x100000`, and `global_data` apart from them. -/
def desk : Placement where
  globalData := 0x400000#64
  elements := 0x100000#64
  apart := desk_apart

/-- The texts of the session, each with a byte that stands for it. -/
def taggedTexts : List (Byte × Assembly) :=
  [ (1#8, memcpyCode), (2#8, memcmpCode), (3#8, strlenCode),
    (4#8, inputCode desk.elements desk.globalData), (5#8, encryptCode),
    (6#8, decryptCode),
    (7#8, validationCode desk.elements desk.globalData),
    (8#8, mainCode desk.elements) ]

/-- An assembler with one byte for each text, so that the slots of different routines hold different
code.  A text that is not of the session does not assemble. -/
def tagAssembler : Assembler := fun str => (taggedTexts.find? (·.2 = str)).map fun p => [p.1]

lemma tagAssembles : Assembles tagAssembler desk.elements desk.globalData := by
  have hshort : ∀ str code, tagAssembler str = some code → code.length ≤ 255 := by
    intro str code h
    obtain ⟨p, -, rfl⟩ := Option.map_eq_some_iff.mp h
    exact (by decide : 1 ≤ 255)
  intro str hstr
  have hsome : (tagAssembler str).isSome = true := by
    revert str
    decide
  obtain ⟨code, hcode⟩ := Option.isSome_iff_exists.mp hsome
  exact ⟨code, hcode, hshort str code hcode⟩

/-- A connection that has just been accepted, on which the texts of the session assemble to one byte
each. -/
theorem connection_ends_start :
    let s' := initialServer.informed desk.globalData desk.elements
    let c' : ClientState Unit :=
      ⟨initialServer.globalData, loadedSlots tagAssembler desk.elements desk.globalData, ()⟩
    0 ≤ 197 ∧ Steps (System.Step tagAssembler answering) (197 - 0)
      (System.accepted tagAssembler answering none desk.globalData desk.elements initialServer
        ⟨(Vector.replicate 256 0#8), initialElements, ()⟩)
      (System.validated answering none s' c') ∧
      ∀ S', ¬System.Step tagAssembler answering (System.validated answering none s' c') S' :=
  connection_ends tagAssembles answering none initialServer (Vector.replicate 256 0#8) () (.refl _)

end Whuctf.Client
