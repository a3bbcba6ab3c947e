import Whuctf.Client.Operations
import Whuctf.Client.Server
import Whuctf.Library.Transition

/-!
# The two programs stay in step

The server makes a sequence of calls, the client runs its loop, and the bytes between them are
delivered whole and in order, with the two sides taking their steps in any order (`System`).

The bytes of one call are exactly what one pass of the client's loop takes
(`Call.Valid.one_pass`).  The invariant `InStep` covers the three situations of a call: the
server idle, the client still taking what was or will be sent, the client's element on its way
back.  Each step keeps it and lowers its rank, so between two calls both channels are empty and
both sides hold the same `global_data`, and the session always comes to its end (`lockstep`).

A call is never looked at byte by byte.  What the client makes of bytes it has or will get is
`Proc.consume`, which does not depend on how they are divided between what has arrived and what is
still to be written, so the invariant speaks of both at once.  The rank counts the writes, the reads
and the turns of the loop that are left.
-/

namespace Whuctf.Client

open Proc (Takes)

/-! ## Calls

The server never stores anything itself: a call is a message, and what it does to the slots happens in
the client.  `Call.slots` says what that is, as a function on slots that both sides can be compared
with. -/

/-- The calls the server makes: those of `operation_dispatcher`, and those of `operation_write_data`,
where the payload is given. -/
inductive Call
  | dispatch (opt : Opt) (idx : BitVec 32) (str : Assembly)
  | writeData (index : BitVec 32) (data : List Byte)

/-- The process of a call: its messages to the client, and the element it reads back. -/
def Call.run (ksAsm : Assembler) (s : Server) : Call → Proc Server Server
  | .dispatch opt idx str => operationDispatcher ksAsm s opt idx str
  | .writeData index data => operationWriteData s index data

/-- A call that is not `OPT_EXIT`, on a slot in `0..499`, with a payload of `0..255` bytes.  These are
the calls over which the client does not quit. -/
def Call.Valid (ksAsm : Assembler) : Call → Prop
  | .dispatch .new idx str => idx.toNat < 500 ∧ ∃ code, ksAsm str = some code ∧ code.length ≤ 255
  | .dispatch .del idx _ => idx.toNat < 500
  | .dispatch .exec idx _ => idx.toNat < 500
  | .dispatch .exit _ _ => False
  | .writeData index data => index.toNat < 500 ∧ data.length ≤ 255

/-- What a call does to the slots: `NEW` stores its payload at the start of its slot, `DEL`
refills its slot. -/
def Call.slots (ksAsm : Assembler) (f : ℕ → Element) : Call → ℕ → Element
  | .dispatch .new idx str =>
      Function.update f idx.toNat ((f idx.toNat).overwrite ((ksAsm str).getD []))
  | .dispatch .del idx _ => Function.update f idx.toNat Element.filler
  | .dispatch .exec _ _ | .dispatch .exit _ _ => f
  | .writeData index data => Function.update f index.toNat ((f index.toNat).overwrite data)

/-- The slots are those of `f`, which has a value for every number and is read at `0..499` only. -/
def Represents (es : Elements) (f : ℕ → Element) : Prop := ∀ i (hi : i < 500), es[i] = f i

lemma Represents.set {es : Elements} {f : ℕ → Element} (h : Represents es f) (i : Fin 500)
    (e : Element) : Represents (es.set i e i.isLt) (Function.update f i e) := by
  intro j hj
  rw [Vector.getElem_set]
  by_cases hij : (i : ℕ) = j
  · rw [if_pos hij, ← hij, Function.update_self]
  · rw [if_neg hij, Function.update_of_ne (Ne.symm hij), h j hj]

variable {W : Type}

/-! ## What one pass of the client takes

One lemma for each function of `client.c`, in the shape of `Takes`: the bytes it reads, how many reads
it makes, what it returns, and what it leaves of the bytes.  They are put together along the calls of
the functions. -/

lemma takes_syncGlobalRecv (c : ClientState W) (g : Element) (rest : List Byte) :
    Takes (syncGlobalRecv c) (g.toList ++ rest) 1 (.ret { c with globalData := g }) rest := by
  refine Takes.read (by simp) ?_
  simp only [Proc.ret_bind, Element.overwrite_toList, Vector.length_toList, if_true]
  exact Takes.ret _ _

lemma takes_readInt (c : ClientState W) (v : BitVec 32) (rest : List Byte) :
    Takes (readInt c) (Word32.bytesLE v ++ rest) 1 (.ret v) rest := by
  refine Takes.read (Word32.length_bytesLE v) ?_
  simp only [Word32.bytesLE, Proc.ret_bind, Word32.ofBytes_byte]
  exact Takes.ret _ _

lemma takes_readIndex (c : ClientState W) {v : BitVec 32} (hv : v.toNat < 500)
    (rest : List Byte) :
    Takes (readIndex c) (Word32.bytesLE v ++ rest) 1 (.ret ⟨v.toNat, hv⟩) rest := by
  have hint : v.toInt = v.toNat := by
    rw [BitVec.toInt_eq_toNat_cond, if_pos (by omega)]
  refine Takes.bind (n := 1) (m := 0) (takes_readInt c v rest) ?_
  rw [dif_pos (by rw [hint]; omega)]
  exact Takes.ret _ _

lemma takes_clientOperationNew (c : ClientState W) {v : BitVec 32} (hv : v.toNat < 500)
    {payload : List Byte} (hlen : payload.length ≤ 255) (rest : List Byte) :
    Takes (clientOperationNew c)
      (Word32.bytesLE v ++
        (Word32.bytesLE (BitVec.ofNat 32 payload.length) ++ (payload ++ rest))) 3
      (.ret (c.setElement ⟨v.toNat, hv⟩ ((c.elements.get ⟨v.toNat, hv⟩).overwrite payload)))
      rest := by
  have hnat : (BitVec.ofNat 32 payload.length).toNat = payload.length := by
    rw [BitVec.toNat_ofNat]
    omega
  have hint : (BitVec.ofNat 32 payload.length).toInt = payload.length := by
    rw [BitVec.toInt_eq_toNat_cond, if_pos (by omega), hnat]
  refine Takes.bind (n := 1) (m := 2) (takes_readIndex c hv _)
    (Takes.bind (n := 1) (m := 1) (takes_readInt c _ _) ?_)
  rw [if_neg (by rw [hint]; omega), hnat]
  refine Takes.read rfl ?_
  simp only [Proc.ret_bind, if_true]
  exact Takes.ret _ _

lemma takes_clientOperationDel (c : ClientState W) {v : BitVec 32} (hv : v.toNat < 500)
    (rest : List Byte) :
    Takes (clientOperationDel c) (Word32.bytesLE v ++ rest) 1
      (.ret (c.setElement ⟨v.toNat, hv⟩ Element.filler)) rest :=
  Takes.bind (n := 1) (m := 0) (takes_readIndex c hv rest) (Takes.ret _ _)

lemma takes_clientOperationExecute (exec : Exec W) (c : ClientState W) {v : BitVec 32}
    (hv : v.toNat < 500) (rest : List Byte) :
    Takes (clientOperationExecute exec c) (Word32.bytesLE v ++ rest) 1
      (.ret { c with globalData := (exec c.world c.elements ⟨v.toNat, hv⟩ c.globalData).1,
                     world := (exec c.world c.elements ⟨v.toNat, hv⟩ c.globalData).2 }) rest :=
  Takes.bind (n := 1) (m := 0) (takes_readIndex c hv rest) (Takes.ret _ _)

/-- A pass of the loop takes the element, the opcode and what its operation takes, and is then
about to send its element. -/
lemma takes_iteration (exec : Exec W) (c : ClientState W) (g : Element) (operation : Byte)
    {c' : ClientState W} {again : Bool} {n : ℕ} {bs : List Byte}
    (hop : Takes (clientOperation exec { c with globalData := g } operation) bs n
      (.ret (c', again)) []) :
    Takes (iteration exec c) (g.toList ++ ([operation] ++ bs)) (n + 2)
      (.write c'.globalData.toList (.ret (c', again))) [] := by
  rw [show n + 2 = 1 + (n + 1) by omega]
  refine Takes.bind (takes_syncGlobalRecv c g _) (Takes.read rfl ?_)
  rw [Proc.ret_bind]
  exact Takes.bind (m := 0) hop (Takes.write _ _ _)

/-! ## What one call sends -/

/-- **One call, one pass.**  The bytes of a valid call are those one pass of the loop takes, and
the pass leaves the slots the call asks for. -/
lemma Call.Valid.one_pass {ksAsm : Assembler} {call : Call} (hvalid : call.Valid ksAsm)
    (exec : Exec W) (s : Server) (c : ClientState W) {f : ℕ → Element}
    (helements : Represents c.elements f) :
    ∃ c' n, n ≤ 5 ∧ Represents c'.elements (call.slots ksAsm f) ∧
      Takes (iteration exec c) (call.run ksAsm s).emit.1 n
        (.write c'.globalData.toList (.ret (c', true))) [] := by
  set c₁ : ClientState W := { c with globalData := s.globalData } with hc₁
  match call, hvalid with
  | .dispatch .new idx str, ⟨hidx, code, hcode, hlen⟩ =>
      have hemit : ((Call.dispatch .new idx str).run ksAsm s).emit.1 =
          s.globalData.toList ++ ([0#8] ++ (Word32.bytesLE idx ++
            (Word32.bytesLE (BitVec.ofNat 32 code.length) ++ (code ++ [])))) := by
        simp only [Call.run, operationDispatcher, announce, operationNew, hcode]
        rfl
      refine ⟨c₁.setElement ⟨idx.toNat, hidx⟩
        ((c₁.elements.get ⟨idx.toNat, hidx⟩).overwrite code), 5, le_rfl, ?_, ?_⟩
      · have hget : c₁.elements.get ⟨idx.toNat, hidx⟩ = f idx.toNat := helements idx.toNat hidx
        rw [hget, Call.slots, hcode, Option.getD_some]
        exact helements.set ⟨idx.toNat, hidx⟩ _
      · rw [hemit]
        exact takes_iteration exec c s.globalData 0#8
          (Takes.bind (m := 0) (takes_clientOperationNew c₁ hidx hlen []) (Takes.ret _ _))
  | .dispatch .del idx str, hidx =>
      refine ⟨c₁.setElement ⟨idx.toNat, hidx⟩ Element.filler, 3, by decide,
        helements.set ⟨idx.toNat, hidx⟩ _, ?_⟩
      exact takes_iteration exec c s.globalData 1#8
        (Takes.bind (m := 0) (takes_clientOperationDel c₁ hidx []) (Takes.ret _ _))
  | .dispatch .exec idx str, hidx =>
      set r := exec c₁.world c₁.elements ⟨idx.toNat, hidx⟩ c₁.globalData
      refine ⟨{ c₁ with globalData := r.1, world := r.2 }, 3, by decide, helements, ?_⟩
      exact takes_iteration exec c s.globalData 2#8
        (Takes.bind (m := 0) (takes_clientOperationExecute exec c₁ hidx []) (Takes.ret _ _))
  | .writeData index data, ⟨hindex, hlen⟩ =>
      refine ⟨c₁.setElement ⟨index.toNat, hindex⟩
        ((c₁.elements.get ⟨index.toNat, hindex⟩).overwrite data), 5, le_rfl, ?_, ?_⟩
      · have hget : c₁.elements.get ⟨index.toNat, hindex⟩ = f index.toNat :=
          helements index.toNat hindex
        rw [hget]
        exact helements.set ⟨index.toNat, hindex⟩ _
      · exact takes_iteration exec c s.globalData 0#8
          (Takes.bind (m := 0) (takes_clientOperationNew c₁ hindex hlen []) (Takes.ret _ _))

/-- The bytes of `OPT_EXIT` end the loop: the client takes the element and the opcode, sends its
element back, and does not go on. -/
lemma exit_pass (ksAsm : Assembler) (exec : Exec W) (s : Server) (c : ClientState W)
    (idx : BitVec 32) (str : Assembly) :
    Takes (iteration exec c) ((Call.dispatch .exit idx str).run ksAsm s).emit.1 2
      (.write s.globalData.toList (.ret ({ c with globalData := s.globalData }, false))) [] :=
  takes_iteration exec c s.globalData 3#8 (Takes.ret _ _)

/-- Behind its writes, of which there are at most five, a call waits for the client's element. -/
lemma Call.Valid.emit_snd {ksAsm : Assembler} {call : Call} (hvalid : call.Valid ksAsm)
    (s : Server) : (call.run ksAsm s).emit.2 = readEcho s ∧ (call.run ksAsm s).writes ≤ 5 := by
  match call, hvalid with
  | .dispatch .new idx str, ⟨_, code, hcode, _⟩ =>
      simp only [Call.run, operationDispatcher, announce, operationNew, hcode]
      exact ⟨rfl, le_rfl⟩
  | .dispatch .del idx str, _ => exact ⟨rfl, (by decide : 3 ≤ 5)⟩
  | .dispatch .exec idx str, _ => exact ⟨rfl, (by decide : 3 ≤ 5)⟩
  | .writeData index data, _ => exact ⟨rfl, le_rfl⟩

/-! ## The two programs together

Two situations are not steps on the wire: the server goes on to its next call, and the client to its
next pass.  The client can stay at the end of a pass while the server is already in its next call, so
`awake` looks at its process as if the loop had been unrolled. -/

/-- One entry of the server's script: what it does to its element first, and the call.
`run_validation` masks a reply and stores a reward between two calls, so the element may change there. -/
structure Turn where
  prepare : Element → Element
  call : Call

/-- The two programs, the bytes in flight between them in both directions, and the calls that are left
in the server's script. -/
structure System (W : Type) where
  wire : Duplex Server Server (ClientState W) (ClientState W × Bool)
  todo : List Turn

/-- A step of the system: one side acts on the wire, the server goes on to its next call, or the
client to its next pass. -/
inductive System.Step (ksAsm : Assembler) (exec : Exec W) : System W → System W → Prop
  | wire {d d' : Duplex Server Server (ClientState W) (ClientState W × Bool)} {todo : List Turn}
      (h : Duplex.Step d d') : Step ksAsm exec ⟨d, todo⟩ ⟨d', todo⟩
  | call (s : Server) (q : Proc (ClientState W) (ClientState W × Bool)) (l r : List Byte)
      (turn : Turn) (todo : List Turn) :
      Step ksAsm exec ⟨⟨.ret s, q, l, r⟩, turn :: todo⟩
        ⟨⟨turn.call.run ksAsm { s with globalData := turn.prepare s.globalData }, q, l, r⟩, todo⟩
  | again (p : Proc Server Server) (c : ClientState W) (l r : List Byte) (todo : List Turn) :
      Step ksAsm exec ⟨⟨p, .ret (c, true), l, r⟩, todo⟩ ⟨⟨p, iteration exec c, l, r⟩, todo⟩

/-- The connection when the pointers have been exchanged: nothing is in flight, and the client waits
for the first element. -/
def System.start (exec : Exec W) (s : Server) (c : ClientState W) (script : List Turn) :
    System W :=
  ⟨⟨.ret s, iteration exec c, [], []⟩, script⟩

/-- The client's process, its loop unrolled when it stands at the end of a pass.  What it will make of
the bytes of the next call is the same in both cases. -/
def awake (exec : Exec W) : Proc (ClientState W) (ClientState W × Bool) →
    Proc (ClientState W) (ClientState W × Bool)
  | .ret (c, true) => iteration exec c
  | q => q

/-- One when the client stands at the end of a pass, for the step that unrolls the loop: this step
changes nothing else, so the rank has to count it. -/
def asleep : Proc (ClientState W) (ClientState W × Bool) → ℕ
  | .ret (_, true) => 1
  | _ => 0

@[simp] lemma awake_write (exec : Exec W) (bs : List Byte)
    (q : Proc (ClientState W) (ClientState W × Bool)) :
    awake exec (.write bs q) = .write bs q := rfl
@[simp] lemma awake_read (exec : Exec W) (n : ℕ)
    (k : List Byte → Proc (ClientState W) (ClientState W × Bool)) :
    awake exec (.read n k) = .read n k := rfl
@[simp] lemma asleep_iteration (exec : Exec W) (c : ClientState W) :
    asleep (iteration exec c) = 0 := rfl
@[simp] lemma asleep_end (c : ClientState W) : asleep (.ret (c, true)) = 1 := rfl

lemma asleep_le (q : Proc (ClientState W) (ClientState W × Bool)) : asleep q ≤ 1 := by
  unfold asleep
  split <;> simp

/-- Valid calls, ended by `OPT_EXIT`, the only call that ends the client's loop. -/
inductive Script (ksAsm : Assembler) : List Turn → Prop
  | exit (prepare : Element → Element) (idx : BitVec 32) (str : Assembly) :
      Script ksAsm [⟨prepare, .dispatch .exit idx str⟩]
  | cons {turn : Turn} {todo : List Turn} (hvalid : turn.call.Valid ksAsm)
      (hrest : Script ksAsm todo) : Script ksAsm (turn :: todo)

/-- What is left of a script: a script as long as the client goes on, and nothing when it has been told
to stop. -/
def Remains (ksAsm : Assembler) (todo : List Turn) (again : Bool) : Prop :=
  if again then Script ksAsm todo else todo = []

/-- The slots after the calls of `done`, in their order, from slots that are all filled with `ret`. -/
def slotsAfter (ksAsm : Assembler) (done : List Turn) : ℕ → Element :=
  done.foldl (fun f turn => turn.call.slots ksAsm f) fun _ => Element.filler

/-- The client behind a pass: at its end, or at the start of the next. -/
def BehindPass (exec : Exec W) (c : ClientState W) (again : Bool)
    (q : Proc (ClientState W) (ClientState W × Bool)) : Prop :=
  q = .ret (c, again) ∨ again = true ∧ q = iteration exec c

lemma BehindPass.awake_eq {exec : Exec W} {c : ClientState W}
    {q : Proc (ClientState W) (ClientState W × Bool)} (h : BehindPass exec c true q) :
    awake exec q = iteration exec c := by
  rcases h with rfl | ⟨-, rfl⟩
  · rfl
  · rfl

/-- The three situations of a session, with a bound on the steps that are left.  In each, the calls of
`done` have been begun and the client's element and slots will be, or are, those of `c`.  The session
goes round: an idle server begins a call and is busy, the client's last write brings it to `replied`,
and the read of the echo back to `idle`. -/
inductive InStep (ksAsm : Assembler) (exec : Exec W) (script : List Turn) :
    System W → ℕ → Prop
  /-- The server is between two calls.  The client has answered the last one, so nothing is in flight,
  and both have the same element unless no call has been made yet. -/
  | idle {s : Server} {q : Proc (ClientState W) (ClientState W × Bool)} {c : ClientState W}
      {done todo : List Turn} {again : Bool} (hq : BehindPass exec c again q)
      (hremains : Remains ksAsm todo again) (hscript : script = done ++ todo)
      (hglobal : done ≠ [] → c.globalData = s.globalData)
      (hslots : Represents c.elements (slotsAfter ksAsm done)) :
      InStep ksAsm exec script ⟨⟨.ret s, q, [], []⟩, todo⟩ (16 * todo.length + asleep q)
  /-- The client has yet to take bytes of the call.  Some of them are in flight and others not yet
  written, and of all of them together it makes the reply `c`. -/
  | busy {p : Proc Server Server} {s : Server} {r : List Byte}
      {q : Proc (ClientState W) (ClientState W × Bool)} {c : ClientState W}
      {done todo : List Turn} {again : Bool} (hp : p.emit.2 = readEcho s)
      (hq : (awake exec q).consume (r ++ p.emit.1) =
        (.write c.globalData.toList (.ret (c, again)), []))
      (hremains : Remains ksAsm todo again) (hscript : script = done ++ todo)
      (hslots : Represents c.elements (slotsAfter ksAsm done)) :
      InStep ksAsm exec script ⟨⟨p, q, [], r⟩, todo⟩
        (16 * todo.length + p.writes + (awake exec q).reads (r ++ p.emit.1) + asleep q + 3)
  /-- The client's element is on its way back, and the server has nothing left to write before it reads. -/
  | replied {p : Proc Server Server} {s : Server}
      {q : Proc (ClientState W) (ClientState W × Bool)} {c : ClientState W}
      {done todo : List Turn} {again : Bool} (hp : p.emit = ([], readEcho s))
      (hq : BehindPass exec c again q) (hremains : Remains ksAsm todo again)
      (hscript : script = done ++ todo)
      (hslots : Represents c.elements (slotsAfter ksAsm done)) :
      InStep ksAsm exec script ⟨⟨p, q, c.globalData.toList, []⟩, todo⟩
        (16 * todo.length + p.writes + asleep q + 1)

/-- The next call, from an idle server.  What it will write is what one pass takes, so the client is to
reply with the slots after this call. -/
lemma InStep.begin_call {ksAsm : Assembler} {exec : Exec W} {script done todo : List Turn}
    {turn : Turn} {s : Server} {q : Proc (ClientState W) (ClientState W × Bool)}
    {c : ClientState W} (hq : BehindPass exec c true q)
    (hremains : Script ksAsm (turn :: todo)) (hscript : script = done ++ turn :: todo)
    (hslots : Represents c.elements (slotsAfter ksAsm done)) :
    ∃ k < 16 * (turn :: todo).length + asleep q,
      InStep ksAsm exec script ⟨⟨turn.call.run ksAsm s, q, [], []⟩, todo⟩ k := by
  have hscript' : script = (done ++ [turn]) ++ todo := by
    rw [hscript, List.append_assoc]
    rfl
  have hawake := hq.awake_eq
  cases hremains with
  | exit prepare idx str =>
      have hpass := exit_pass ksAsm exec s c idx str
      refine ⟨_, ?_, .busy (s := s) (c := { c with globalData := s.globalData }) rfl ?_
        (show Remains ksAsm [] false from rfl) hscript' ?_⟩
      · rw [List.nil_append, hawake, hpass.reads_eq]
        simp [Call.run, operationDispatcher, announce, operationExit, Proc.send, Proc.writes,
          readEcho, Proc.receive]
        omega
      · rw [List.nil_append, hawake, hpass.consume_eq]
      · rw [slotsAfter, List.foldl_append]
        exact hslots
  | cons hvalid hrest =>
      obtain ⟨c', n, hn, hslots', hpass⟩ := hvalid.one_pass exec s c hslots
      obtain ⟨hemit, hwrites⟩ := hvalid.emit_snd s
      refine ⟨_, ?_, .busy hemit (c := c') ?_ (show Remains ksAsm todo true from hrest)
        hscript' ?_⟩
      · rw [List.nil_append, hawake, hpass.reads_eq, List.length_cons]
        omega
      · rw [List.nil_append, hawake, hpass.consume_eq]
      · rw [slotsAfter, List.foldl_append]
        exact hslots'

/-- Behind a pass the client does not write, and reads nothing but a whole element. -/
lemma BehindPass.read_eq {exec : Exec W} {c : ClientState W} {again : Bool} {n : ℕ}
    {k : List Byte → Proc (ClientState W) (ClientState W × Bool)}
    (h : BehindPass exec c again (.read n k)) : n = 256 := by
  rcases h with h | ⟨-, h⟩
  · cases h
  · injection h

lemma BehindPass.not_write {exec : Exec W} {c : ClientState W} {again : Bool} {bs : List Byte}
    {q : Proc (ClientState W) (ClientState W × Bool)} :
    ¬BehindPass exec c again (.write bs q) := by
  rintro (h | ⟨-, h⟩)
  · cases h
  · cases h

/-- Unrolling the loop at the end of a pass keeps the client behind it. -/
lemma BehindPass.unroll {exec : Exec W} {c c' : ClientState W} {again : Bool}
    (h : BehindPass exec c again (.ret (c', true))) :
    BehindPass exec c again (iteration exec c') := by
  rcases h with h | ⟨-, h⟩
  · injection h with h
    injection h with hc hagain
    exact Or.inr ⟨hagain.symm, by rw [hc]⟩
  · cases h

/-- A process that comes to a write does not stand at the end of a pass. -/
lemma awake_of_consume (exec : Exec W) {q p : Proc (ClientState W) (ClientState W × Bool)}
    {bs out rest : List Byte} (h : q.consume bs = (.write out p, rest)) :
    awake exec q = q ∧ asleep q = 0 := by
  cases q with
  | ret r =>
      rw [Proc.consume] at h
      cases h
  | halt s => exact ⟨rfl, rfl⟩
  | write ws q => exact ⟨rfl, rfl⟩
  | read n k => exact ⟨rfl, rfl⟩

/-- The client writes only when it has taken everything: if a process that is at a write is what the
rest of the stream leads to, that rest is empty. -/
lemma write_of_consume {exec : Exec W} {q : Proc (ClientState W) (ClientState W × Bool)}
    {ws out r u : List Byte} {x : ClientState W × Bool}
    (h : (awake exec (.write ws q)).consume (r ++ u) = (.write out (.ret x), [])) :
    ws = out ∧ q = .ret x ∧ r = [] ∧ u = [] := by
  rw [awake_write, Proc.consume] at h
  obtain ⟨hwrite, hnil⟩ := Prod.mk.inj h
  obtain ⟨hr, hu⟩ := List.append_eq_nil_iff.mp hnil
  injection hwrite with hws hq
  exact ⟨hws, hq, hr, hu⟩

/-- A read of the client's leaves what everything will be consumed to, and one read less. -/
lemma read_of_consume {exec : Exec W}
    {k : List Byte → Proc (ClientState W) (ClientState W × Bool)} {n : ℕ} {out r u : List Byte}
    {p : Proc (ClientState W) (ClientState W × Bool)} (hn : n ≤ r.length)
    (h : (awake exec (.read n k)).consume (r ++ u) = (.write out p, [])) :
    (awake exec (k (r.take n))).consume (r.drop n ++ u) = (.write out p, []) ∧
      (awake exec (.read n k)).reads (r ++ u) =
        (awake exec (k (r.take n))).reads (r.drop n ++ u) + 1 ∧
      asleep (k (r.take n)) = 0 := by
  rw [awake_read, Proc.consume_read hn] at h
  obtain ⟨hawake, hasleep⟩ := awake_of_consume exec h
  rw [hawake, awake_read, Proc.reads_read hn]
  exact ⟨h, rfl, hasleep⟩

/-- **Each step keeps the two programs in step** and lowers the rank. -/
lemma InStep.step {ksAsm : Assembler} {exec : Exec W} {script : List Turn} {S S' : System W}
    {k : ℕ} (h : InStep ksAsm exec script S k) (hstep : System.Step ksAsm exec S S') :
    ∃ k' < k, InStep ksAsm exec script S' k' := by
  cases h with
  | idle hq hremains hscript hglobal hslots =>
      cases hstep with
      | wire hwire =>
          cases hwire with
          | rightWrite => exact absurd hq BehindPass.not_write
          | rightRead n p k l r hn =>
              rw [hq.read_eq] at hn
              exact absurd hn (by decide)
      | call s q l r turn todo =>
          rename_i c done again
          cases again with
          | true => exact InStep.begin_call hq hremains hscript hslots
          | false => cases hremains
      | again p c l r todo =>
          exact ⟨_, by simp, .idle hq.unroll hremains hscript hglobal hslots⟩
  | @busy p s r q c done todo again hp hq hremains hscript hslots =>
      cases hstep with
      | wire hwire =>
          cases hwire with
          | leftWrite bs p q l r =>
              rw [Proc.emit, ← List.append_assoc] at hq
              refine ⟨_, ?_, .busy hp hq hremains hscript hslots⟩
              rw [Proc.emit, Proc.writes, ← List.append_assoc]
              omega
          | leftRead n k q l r hn =>
              cases hp
              exact absurd hn (by decide)
          | rightWrite bs p q l r =>
              -- everything has been taken, and the client sends its element
              obtain ⟨rfl, rfl, rfl, hemit⟩ := write_of_consume hq
              refine ⟨_, ?_, .replied (Prod.ext hemit hp) (Or.inl rfl) hremains hscript hslots⟩
              have hle := asleep_le (.ret (c, again))
              omega
          | rightRead n p k l r hn =>
              obtain ⟨hq', hreads, hasleep⟩ := read_of_consume hn hq
              refine ⟨_, ?_, .busy hp hq' hremains hscript hslots⟩
              rw [hreads, hasleep]
              omega
      | call s q l r turn todo => cases hp
      | again p c l r todo =>
          refine ⟨_, ?_, .busy hp hq hremains hscript hslots⟩
          rw [asleep_iteration, asleep_end]
          exact Nat.add_lt_add_right (Nat.lt_succ_self _) 3
  | @replied p s q c done todo again hp hq hremains hscript hslots =>
      cases hstep with
      | wire hwire =>
          cases hwire with
          | leftWrite bs p q l r =>
              obtain ⟨hemit, hrest⟩ := Prod.mk.inj hp
              obtain ⟨rfl, hemit'⟩ := List.append_eq_nil_iff.mp hemit
              refine ⟨_, ?_, .replied (Prod.ext hemit' hrest) hq hremains hscript hslots⟩
              rw [Proc.writes]
              omega
          | leftRead n k q l r hn =>
              obtain ⟨-, hread⟩ := Prod.mk.inj hp
              injection hread with hn' hk
              subst hn' hk
              have htake : c.globalData.toList.take 256 = c.globalData.toList :=
                List.take_of_length_le (by simp)
              have hdrop : c.globalData.toList.drop 256 = [] := List.drop_of_length_le (by simp)
              rw [htake, hdrop]
              refine ⟨_, ?_, .idle hq hremains hscript (fun _ => ?_) hslots⟩
              · omega
              · exact (Element.overwrite_toList s.globalData c.globalData).symm
          | rightWrite => exact absurd hq BehindPass.not_write
          | rightRead n p k l r hn =>
              rw [hq.read_eq] at hn
              exact absurd hn (by decide)
      | call s q l r turn todo => cases hp
      | again p c l r todo =>
          exact ⟨_, by simp, .replied hp hq.unroll hremains hscript hslots⟩

/-! ## The session

A step lowers the rank by at least one and there is one as long as the session is not over, so each run
has an end, and the rank of the start bounds its length. -/

/-- The session is over: nothing left to call, and the client out of its loop. -/
def System.Finished (S : System W) : Prop :=
  S.todo = [] ∧ (∃ s, S.wire.left = .ret s) ∧ ∃ c, S.wire.right = .ret (c, false)

lemma Remains.again_eq_false_iff {ksAsm : Assembler} {todo : List Turn} {again : Bool}
    (h : Remains ksAsm todo again) : again = false ↔ todo = [] := by
  cases again with
  | true =>
      have htodo : Script ksAsm todo := h
      constructor
      · intro hfalse
        cases hfalse
      · rintro rfl
        cases htodo
  | false => exact ⟨fun _ => h, fun _ => rfl⟩

/-- With everything sent that will be sent, a client that has yet to reply can take a step. -/
lemma client_can_step {ksAsm : Assembler} {exec : Exec W} {p : Proc Server Server}
    {q x : Proc (ClientState W) (ClientState W × Bool)} {l r out : List Byte} {todo : List Turn}
    (h : (awake exec q).consume r = (.write out x, [])) :
    ∃ S', System.Step ksAsm exec ⟨⟨p, q, l, r⟩, todo⟩ S' := by
  cases q with
  | ret y =>
      obtain ⟨c, again⟩ := y
      cases again with
      | true => exact ⟨_, .again p c l r todo⟩
      | false => cases h
  | halt c => cases h
  | write ws q => exact ⟨_, .wire (.rightWrite ws p q l r)⟩
  | read n k =>
      by_cases hn : n ≤ r.length
      · exact ⟨_, .wire (.rightRead n p k l r hn)⟩
      · rw [awake_read, Proc.consume, if_neg hn] at h
        cases h

/-- A session in step is over or can go on: of the two sides, at least one is not waiting for bytes
that are still to be written. -/
lemma InStep.progress {ksAsm : Assembler} {exec : Exec W} {script : List Turn} {S : System W}
    {k : ℕ} (h : InStep ksAsm exec script S k) :
    S.Finished ∨ ∃ S', System.Step ksAsm exec S S' := by
  cases h with
  | @idle s q c done todo again hq hremains hscript hglobal hslots =>
      cases todo with
      | cons turn todo => exact Or.inr ⟨_, .call s q [] [] turn todo⟩
      | nil =>
          cases again with
          | true => cases hremains
          | false =>
              rcases hq with rfl | ⟨hagain, -⟩
              · exact Or.inl ⟨rfl, ⟨s, rfl⟩, ⟨c, rfl⟩⟩
              · cases hagain
  | @busy p s r q c done todo again hp hq hremains hscript hslots =>
      right
      cases p with
      | write bs p => exact ⟨_, .wire (.leftWrite bs p q [] r)⟩
      | ret s => cases hp
      | halt s => cases hp
      | read n k =>
          rw [Proc.emit, List.append_nil] at hq
          exact client_can_step hq
  | @replied p s q c done todo again hp hq hremains hscript hslots =>
      right
      cases p with
      | write bs p => exact ⟨_, .wire (.leftWrite bs p q _ [])⟩
      | ret s => cases hp
      | halt s => cases hp
      | read n k =>
          obtain ⟨-, hread⟩ := Prod.mk.inj hp
          injection hread with hn hk
          subst hn
          exact ⟨_, .wire (.leftRead 256 k q _ [] (by simp))⟩

/-- **The two programs stay in step.**  In a session of any valid calls ended by `OPT_EXIT`,
whatever the executed slots do to `global_data` and however the two sides interleave:

- whenever the server is between two calls, both channels are empty, the client stands behind
  the pass of the last call with the server's `global_data`, and its slots are those the calls
  so far leave in the initial array;
- a session that is not over can go on;
- a session of `n` calls is over after at most `16 * n` steps. -/
theorem lockstep {ksAsm : Assembler} (exec : Exec W) (s₀ : Server) (g₀ : Element) (w₀ : W)
    {script : List Turn} (hscript : Script ksAsm script) {n : ℕ} {S : System W}
    (hrun : Steps (System.Step ksAsm exec) n
      (System.start exec s₀ ⟨g₀, initialElements, w₀⟩ script) S) :
    (∀ s, S.wire.left = .ret s → S.wire.toLeft = [] ∧ S.wire.toRight = [] ∧
      ∃ done c again, script = done ++ S.todo ∧ BehindPass exec c again S.wire.right ∧
        (again = false ↔ S.todo = []) ∧ (done ≠ [] → c.globalData = s.globalData) ∧
        Represents c.elements (slotsAfter ksAsm done)) ∧
      (S.Finished ∨ ∃ S', System.Step ksAsm exec S S') ∧
      n ≤ 16 * script.length := by
  have hinit : Represents initialElements (slotsAfter ksAsm []) := by
    intro i hi
    simp [initialElements, slotsAfter]
  have hstart : InStep ksAsm exec script
      (System.start exec s₀ ⟨g₀, initialElements, w₀⟩ script) (16 * script.length + 0) :=
    .idle (show BehindPass exec ⟨g₀, initialElements, w₀⟩ true _ from Or.inr ⟨rfl, rfl⟩) hscript
      rfl (fun h => absurd rfl h) hinit
  obtain ⟨k, hk, hin⟩ := Steps.ranked (fun _ _ _ h hstep => h.step hstep) hrun hstart
  refine ⟨?_, hin.progress, by omega⟩
  intro s hs
  cases hin with
  | @idle s' q c done todo again hq hremains hscript hglobal hslots =>
      cases hs
      exact ⟨rfl, rfl, done, c, again, hscript, hq, hremains.again_eq_false_iff, hglobal, hslots⟩
  | busy hp =>
      cases hs
      cases hp
  | replied hp =>
      cases hs
      cases hp

/-- A session of one write and the exit, before its first step. -/
def oneWrite : System Unit :=
  System.start (fun w _ _ g => (g, w)) ⟨Vector.replicate 256 0#8, 0#64, 0#64⟩
    ⟨Vector.replicate 256 0#8, initialElements, ()⟩
    [⟨id, .writeData 7#32 [1#8]⟩, ⟨id, .dispatch .exit 0#32 []⟩]

/-- The session is run to its end: the slot holds what was written, and both sides the same element. -/
theorem lockstep_oneWrite :
    ∃ n ≤ 32, ∃ s c, Steps (System.Step (fun _ => none) (fun w _ _ g => (g, w))) n oneWrite
        ⟨⟨.ret s, .ret (c, false), [], []⟩, []⟩ ∧
      c.globalData = s.globalData ∧ c.elements.get 7 = Element.filler.overwrite [1#8] := by
  have hvalid : (Call.writeData 7#32 [1#8]).Valid fun _ => none := ⟨by decide, by decide⟩
  have hscript : Script (fun _ => none) oneWrite.todo := .cons hvalid (.exit id 0#32 [])
  obtain ⟨n, S, hrun, hfinished⟩ := Steps.exists_end fun n S hrun =>
    have hstep := lockstep (fun w _ _ g => (g, w)) ⟨Vector.replicate 256 0#8, 0#64, 0#64⟩
      (Vector.replicate 256 0#8) () hscript (S := S) hrun
    ⟨hstep.2.2, hstep.2.1⟩
  obtain ⟨hinvariant, -, hlength⟩ := lockstep (fun w _ _ g => (g, w))
    ⟨Vector.replicate 256 0#8, 0#64, 0#64⟩ (Vector.replicate 256 0#8) () hscript hrun
  obtain ⟨⟨p, q, l, r⟩, todo⟩ := S
  obtain ⟨rfl, ⟨s, rfl⟩, c', rfl⟩ := hfinished
  obtain ⟨rfl, rfl, done, c, again, hdone, hbehind, hagain, hglobal, hslots⟩ := hinvariant s rfl
  obtain rfl : again = false := hagain.mpr rfl
  rw [List.append_nil] at hdone
  rcases hbehind with hend | ⟨hfalse, -⟩
  · cases hend
    refine ⟨n, hlength, s, c', hrun, hglobal (hdone ▸ by decide), ?_⟩
    have hseven : c'.elements.get 7 = slotsAfter (fun _ => none) oneWrite.todo 7 :=
      hdone ▸ hslots 7 (by decide)
    rw [hseven]
    rfl
  · cases hfalse

end Whuctf.Client
