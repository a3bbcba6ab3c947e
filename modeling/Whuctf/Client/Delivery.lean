import Mathlib.Data.List.TakeWhile
import Whuctf.Client.FlagSecrecy
import Whuctf.Client.Lockstep

/-!
# The delivery of the flag

When the reply to `OPT_EXEC 10` is correct, `run_validation` marks the last byte of
`global_data`, copies the flag over its start and sends it with `OPT_EXIT`.  The client leaves its
loop, looks at the last byte, and prints what stands before the first terminator (`ending`).

The session from `OPT_EXEC 10` on is followed in `System`, with the two sides taking their steps
in any order.  Steps of the two sides commute, so every run ends where the obvious one does: with
the client's `global_data` the element the server rewarded the reply with (`session_ends`).

`fgets` reads up to 255 characters into its buffer of 256, and `strcpy` copies them with their
terminator.  A flag of 255 characters has its terminator on the mark, and the client takes the
other branch: the flag is delivered exactly when it has at most 254 characters
(`flag_delivered_iff`).
-/

namespace Whuctf.Client

open Proc (Takes)

variable {W : Type}

/-! ## The end of the client

`main` behind its loop.  It tests the last byte of its element and prints the element as a C string,
which is all that can be seen of the flag. -/

/-- The characters of a C string: those before the first zero byte. -/
def untilNul (bs : List Byte) : List Byte := bs.takeWhile (· != 0#8)

/-- The branch `main` takes behind its loop: the flag it prints, or `none` for the advice to try
once more. -/
def ending (c : ClientState W) : Option (List Byte) :=
  if c.globalData.get (Fin.last 255) ≠ 0#8 then some (untilNul c.globalData.toList) else none

/-- The client after the code of a slot has run on the element it was sent. -/
def executed (exec : Exec W) (c : ClientState W) (g : Element) (i : Fin 500) : ClientState W :=
  { c with globalData := (exec c.world c.elements i g).1, world := (exec c.world c.elements i g).2 }

/-! ## The reward

What `fgets` and `strcpy` leave in the element.  The terminator that `strcpy` copies is the byte that
can fall on the mark. -/

lemma length_fgets_le (file : List Byte) : (fgets file).length ≤ 255 := by
  rw [fgets, List.length_take, List.length_take]
  omega

lemma length_untilNul_le (bs : List Byte) : (untilNul bs).length ≤ bs.length :=
  (List.takeWhile_prefix _).length_le

/-- A text and its terminator at the start of an element are the C string there. -/
lemma untilNul_append_nul {bs : List Byte} (h : 0#8 ∉ bs) (rest : List Byte) :
    untilNul (bs ++ 0#8 :: rest) = bs := by
  rw [untilNul, List.takeWhile_append_of_pos]
  · simp
  · intro b hb
    simpa using fun heq : b = 0#8 => h (heq ▸ hb)

lemma nul_notMem_untilNul (bs : List Byte) : 0#8 ∉ untilNul bs := by
  intro h
  simpa using List.mem_takeWhile_imp h

lemma untilNul_eq_self {bs : List Byte} : untilNul bs = bs ↔ 0#8 ∉ bs := by
  constructor
  · intro h
    rw [← h]
    exact nul_notMem_untilNul bs
  · intro h
    rw [untilNul, List.takeWhile_eq_self_iff]
    intro b hb
    simpa using fun heq : b = 0#8 => h (heq ▸ hb)

/-- The reward for a correct reply: the flag and its terminator, and behind them what was there. -/
lemma toList_reward (file : List Byte) (g : Element) :
    (reward (some file) true g).toList = untilNul (fgets file) ++
      0#8 :: (g.toList.set 255 1#8).drop ((untilNul (fgets file)).length + 1) := by
  have hlen : (untilNul (fgets file) ++ [0#8]).length ≤ 256 := by
    rw [List.length_append]
    exact Nat.succ_le_succ ((length_untilNul_le _).trans (length_fgets_le file))
  have hprize : reward (some file) true g =
      Element.overwrite (g.set 255 1#8) (untilNul (fgets file) ++ [0#8]) := rfl
  rw [hprize, Element.toList_overwrite _ hlen, Vector.toList_set]
  simp

lemma untilNul_reward (file : List Byte) (g : Element) :
    untilNul (reward (some file) true g).toList = untilNul (fgets file) := by
  rw [toList_reward, untilNul_append_nul (nul_notMem_untilNul _)]

/-- The mark in the last byte survives exactly when the terminator of the copied line does not reach
it, so for lines of at most 254 characters. -/
lemma getElem_reward_last (file : List Byte) (g : Element) :
    (reward (some file) true g).get (Fin.last 255) ≠ 0#8 ↔ (untilNul (fgets file)).length ≤ 254 := by
  have hle : (untilNul (fgets file)).length ≤ 255 :=
    (length_untilNul_le _).trans (length_fgets_le file)
  have hlast : (reward (some file) true g).get (Fin.last 255) =
      (untilNul (fgets file) ++ [0#8])[255]?.getD (g.set 255 1#8)[255] :=
    Element.getElem_overwrite _ _ 255 (by decide)
  rw [hlast]
  by_cases hshort : (untilNul (fgets file)).length ≤ 254
  · have hbehind : (untilNul (fgets file) ++ [0#8]).length ≤ 255 := by
      rw [List.length_append, List.length_singleton]
      omega
    rw [List.getElem?_eq_none hbehind, Option.getD_none, Vector.getElem_set_self]
    simp [hshort]
  · have heq : (untilNul (fgets file)).length = 255 := by omega
    rw [List.getElem?_append_right heq.le, heq]
    simp

/-- The branch the client takes on the reward: it prints the line as far as `fgets` has it up to its
first zero, unless this is so long that the terminator falls on the mark. -/
lemma ending_reward (file : List Byte) (g : Element) {c : ClientState W}
    (hc : c.globalData = reward (some file) true g) :
    ending c =
      if (untilNul (fgets file)).length ≤ 254 then some (untilNul (fgets file)) else none := by
  rw [ending, hc, untilNul_reward, if_congr (getElem_reward_last file g) rfl rfl]

/-! ## The session from the reply on

Three calls are left when the reply has been read.  Since steps of the two sides commute, it is enough
to follow one run through them, and every other run ends in the same state. -/

/-- Steps of the whole system commute, too: those on the wire by `Duplex.diamond`, and the two others
concern one side each. -/
lemma System.diamond (ksAsm : Assembler) (exec : Exec W) : Diamond (System.Step ksAsm exec) := by
  intro S S₁ S₂ h₁ h₂
  cases h₁ with
  | wire h =>
      cases h₂ with
      | wire h' =>
          rcases Duplex.diamond h h' with rfl | ⟨d, hd, hd'⟩
          · exact Or.inl rfl
          · exact Or.inr ⟨_, .wire hd, .wire hd'⟩
      | call s q l r turn rest =>
          cases h with
          | rightWrite => exact Or.inr ⟨_, .call s _ _ r turn rest, .wire (.rightWrite _ _ _ _ _)⟩
          | rightRead n p k l r hn =>
              exact Or.inr ⟨_, .call s _ l _ turn rest, .wire (.rightRead n _ k l r hn)⟩
      | again p c l r =>
          cases h with
          | leftWrite => exact Or.inr ⟨_, .again _ c l _ _, .wire (.leftWrite _ _ _ _ _)⟩
          | leftRead n k q l r hn =>
              exact Or.inr ⟨_, .again _ c _ r _, .wire (.leftRead n k _ l r hn)⟩
  | call s q l r turn rest =>
      cases h₂ with
      | call => exact Or.inl rfl
      | again _ c => exact Or.inr ⟨_, .again _ c l r rest, .call s _ l r turn rest⟩
      | wire h =>
          cases h with
          | rightWrite => exact Or.inr ⟨_, .wire (.rightWrite _ _ _ _ _), .call s _ _ r turn rest⟩
          | rightRead n p k l r hn =>
              exact Or.inr ⟨_, .wire (.rightRead n _ k l r hn), .call s _ l _ turn rest⟩
  | again p c l r rest =>
      cases h₂ with
      | again => exact Or.inl rfl
      | call s _ _ _ turn todo => exact Or.inr ⟨_, .call s _ l r turn todo, .again _ c l r todo⟩
      | wire h =>
          cases h with
          | leftWrite => exact Or.inr ⟨_, .wire (.leftWrite _ _ _ _ _), .again _ c l _ rest⟩
          | leftRead n k q l r hn =>
              exact Or.inr ⟨_, .wire (.leftRead n k _ l r hn), .again _ c _ r rest⟩

/-- A pass for `OPT_EXEC`, and the client at the start of the next one. -/
lemma exec_exchange (ksAsm : Assembler) (exec : Exec W) (s : Server) (c : ClientState W)
    {idx : BitVec 32} (hidx : idx.toNat < 500) (str : Assembly) (f : Server → Proc Server Server)
    (todo : List Turn) :
    let c' := executed exec c s.globalData ⟨idx.toNat, hidx⟩
    Steps (System.Step ksAsm exec) 9
      ⟨⟨(operationDispatcher ksAsm s .exec idx str).bind f, iteration exec c, [], []⟩, todo⟩
      ⟨⟨f { s with globalData := c'.globalData }, iteration exec c', [], []⟩, todo⟩ := by
  intro c'
  have hpass : Takes (iteration exec c) ((Call.dispatch .exec idx str).run ksAsm s).emit.1 3
      (.write c'.globalData.toList (.ret (c', true))) [] :=
    takes_iteration exec c s.globalData 2#8
      (Takes.bind (m := 0) (takes_clientOperationExecute exec { c with globalData := s.globalData }
        hidx []) (Takes.ret _ _))
  have hwire := Duplex.exchange (Proc.emit_bind_read rfl f) hpass (Vector.length_toList)
  have hecho := Element.overwrite_toList s.globalData c'.globalData
  simp only [Proc.ret_bind, hecho] at hwire
  exact (hwire.map (fun d => (⟨d, todo⟩ : System W)) fun _ _ h => .wire h).tail
    (.again _ c' [] [] todo)

/-- The pass for `OPT_EXIT`, and the client out of its loop: six steps bring it there, and the server
has nothing left to do. -/
lemma exit_exchange (ksAsm : Assembler) (exec : Exec W) (s : Server) (c : ClientState W)
    (idx : BitVec 32) (str : Assembly) (todo : List Turn) :
    Steps (System.Step ksAsm exec) 6
      ⟨⟨operationDispatcher ksAsm s .exit idx str, iteration exec c, [], []⟩, todo⟩
      ⟨⟨.ret s, .ret ({ c with globalData := s.globalData }, false), [], []⟩, todo⟩ := by
  have hwire := Duplex.exchange (p := operationDispatcher ksAsm s .exit idx str) rfl
    (exit_pass ksAsm exec s c idx str) Vector.length_toList
  have hecho := Element.overwrite_toList s.globalData s.globalData
  simp only [Proc.ret_bind, hecho] at hwire
  exact hwire.map (fun d => (⟨d, todo⟩ : System W)) fun _ _ h => .wire h

/-- The connection when `run_validation` begins, with the client at the start of a pass. -/
def System.validation (ksAsm : Assembler) (exec : Exec W) (flagFile : Option (List Byte))
    (s : Server) (c : ClientState W) : System W :=
  ⟨⟨runValidation ksAsm flagFile s, iteration exec c, [], []⟩, []⟩

/-- The client's reply to `OPT_EXEC 10`: the element that the code in slot 10 leaves. -/
def firstReply (exec : Exec W) (s : Server) (c : ClientState W) : Element :=
  (executed exec c s.globalData 10).globalData

/-- The client after its reply to `OPT_EXEC 14`, which it got the masked reply with. -/
def afterMain (exec : Exec W) (s : Server) (c : ClientState W) : ClientState W :=
  executed exec (executed exec c s.globalData 10) (maskReply (firstReply exec s c)) 14

/-- The element sent with `OPT_EXIT`: the one that came back from slot 14, rewarded by the verdict. -/
def lastSync (exec : Exec W) (flagFile : Option (List Byte)) (s : Server) (c : ClientState W) :
    Element :=
  reward flagFile (correct shippedKey shippedAnswer (maskReply (firstReply exec s c)))
    (afterMain exec s c).globalData

/-- The state in which the session stops: both sides are done and hold the element sent last, and
nothing is in flight. -/
def System.validated (exec : Exec W) (flagFile : Option (List Byte)) (s : Server)
    (c : ClientState W) : System W :=
  ⟨⟨.ret { s with globalData := lastSync exec flagFile s c },
    .ret ({ afterMain exec s c with globalData := lastSync exec flagFile s c }, false), [], []⟩, []⟩

/-- **The session ends.**  One run takes the connection from `run_validation` to its end. -/
lemma session_ends (ksAsm : Assembler) (exec : Exec W) (flagFile : Option (List Byte))
    (s : Server) (c : ClientState W) :
    Steps (System.Step ksAsm exec) 24 (System.validation ksAsm exec flagFile s c)
      (System.validated exec flagFile s c) := by
  have hreply := exec_exchange ksAsm exec s c (show (10#32).toNat < 500 by decide) []
    (giveVerdict ksAsm flagFile) []
  let verdict := correct shippedKey shippedAnswer (maskReply (firstReply exec s c))
  let rewarded (s' : Server) : Server :=
    { s' with globalData := reward flagFile verdict s'.globalData }
  have hmain := exec_exchange ksAsm exec
    { s with globalData := maskReply (firstReply exec s c) } (executed exec c s.globalData 10)
    (show (14#32).toNat < 500 by decide) []
    (fun s' => operationDispatcher ksAsm (rewarded s') .exit 0#32 []) []
  have hexit := exit_exchange ksAsm exec { s with globalData := lastSync exec flagFile s c }
    (afterMain exec s c) 0#32 [] []
  exact (hreply.trans hmain).trans hexit

lemma System.validated_stuck (ksAsm : Assembler) (exec : Exec W)
    (flagFile : Option (List Byte)) (s : Server) (c : ClientState W) (S : System W) :
    ¬System.Step ksAsm exec (System.validated exec flagFile s c) S := by
  intro h
  cases h with
  | wire h => cases h

/-- A client out of its loop stays as it is, whatever the server goes on to do. -/
lemma System.Step.right_ret {ksAsm : Assembler} {exec : Exec W} {S S' : System W}
    {c : ClientState W} (h : System.Step ksAsm exec S S')
    (hright : S.wire.right = .ret (c, false)) : S'.wire.right = .ret (c, false) := by
  cases h with
  | wire h =>
      cases h with
      | leftWrite => exact hright
      | leftRead => exact hright
      | rightWrite => cases hright
      | rightRead => cases hright
  | call => exact hright
  | again => cases hright

lemma System.right_ret_of_steps {ksAsm : Assembler} {exec : Exec W} {S S' : System W}
    {c : ClientState W} {n : ℕ} (h : Steps (System.Step ksAsm exec) n S S')
    (hright : S.wire.right = .ret (c, false)) : S'.wire.right = .ret (c, false) := by
  induction h with
  | refl S => exact hright
  | tail _ hlast ih => exact hlast.right_ret (ih hright)

/-- In every run the client leaves its loop with the element sent with `OPT_EXIT`. -/
lemma globalData_of_ended {ksAsm : Assembler} {exec : Exec W} {flagFile : Option (List Byte)}
    {s : Server} {c c' : ClientState W} {n : ℕ} {S : System W}
    (h : Steps (System.Step ksAsm exec) n (System.validation ksAsm exec flagFile s c) S)
    (hright : S.wire.right = .ret (c', false)) :
    c'.globalData = lastSync exec flagFile s c := by
  obtain ⟨k, -, hrest⟩ := Steps.descent (System.diamond ksAsm exec)
    (session_ends ksAsm exec flagFile s c) (System.validated_stuck ksAsm exec flagFile s c) h
  have hend := System.right_ret_of_steps hrest hright
  injection hend with hend
  rw [← (Prod.mk.inj hend).1]

/-- The element sent with `OPT_EXIT` when the reply was correct: the copied line over what `main` has
left, and the mark in its last byte. -/
lemma lastSync_of_correct {exec : Exec W} {s : Server} {c : ClientState W} (file : List Byte)
    (h : correct shippedKey shippedAnswer (maskReply (firstReply exec s c)) = true) :
    lastSync exec (some file) s c = reward (some file) true (afterMain exec s c).globalData := by
  rw [lastSync, h]

/-- The branch the client takes at the end of the session. -/
lemma ending_validated {exec : Exec W} {s : Server} {c : ClientState W} (file : List Byte)
    (h : correct shippedKey shippedAnswer (maskReply (firstReply exec s c)) = true) :
    ending { afterMain exec s c with globalData := lastSync exec (some file) s c } =
      if (untilNul (fgets file)).length ≤ 254 then some (untilNul (fgets file)) else none :=
  ending_reward file _ (lastSync_of_correct file h)

/-- **Exactly the flags of at most 254 characters are delivered.**  When the reply to `OPT_EXEC 10`
is correct and the flag file can be opened, whatever the executed slots do and however the two
sides interleave:

- every run is over after at most 24 steps, and can be continued until the client is out of its
  loop;
- a client out of its loop prints the C string that `fgets` read if and only if it has at most 254
  characters, and all the bytes that `fgets` read if and only if they are at most 254 and none of
  them is a terminator. -/
theorem flag_delivered_iff (ksAsm : Assembler) (exec : Exec W) (file : List Byte) (s : Server)
    (c : ClientState W)
    (hreply : correct shippedKey shippedAnswer (maskReply (firstReply exec s c)) = true)
    {n : ℕ} {S : System W}
    (hrun : Steps (System.Step ksAsm exec) n (System.validation ksAsm exec (some file) s c) S) :
    (n ≤ 24 ∧ ∃ m S' c', Steps (System.Step ksAsm exec) m S S' ∧
      S'.wire.right = .ret (c', false)) ∧
    ∀ c', S.wire.right = .ret (c', false) →
      (ending c' = some (untilNul (fgets file)) ↔ (untilNul (fgets file)).length ≤ 254) ∧
      (ending c' = some (fgets file) ↔ (fgets file).length ≤ 254 ∧ 0#8 ∉ fgets file) := by
  obtain ⟨k, hk, hrest⟩ := Steps.descent (System.diamond ksAsm exec)
    (session_ends ksAsm exec (some file) s c)
    (System.validated_stuck ksAsm exec (some file) s c) hrun
  refine ⟨⟨by omega, k, _, _, hrest, rfl⟩, fun c' hright => ?_⟩
  have hglobal := globalData_of_ended hrun hright
  rw [lastSync_of_correct file hreply] at hglobal
  rw [ending_reward file _ hglobal]
  by_cases hshort : (untilNul (fgets file)).length ≤ 254
  · rw [if_pos hshort]
    refine ⟨iff_of_true rfl hshort, ?_⟩
    rw [Option.some.injEq, untilNul_eq_self]
    refine ⟨fun h => ⟨?_, h⟩, fun h => h.2⟩
    rwa [untilNul_eq_self.mpr h] at hshort
  · rw [if_neg hshort]
    refine ⟨iff_of_false (by simp) hshort, iff_of_false (by simp) fun h => hshort ?_⟩
    exact (length_untilNul_le _).trans h.1

/-- A client that knows the correct reply: its slot 10 writes it over the element, and no other slot
does anything. -/
def answering : Exec Unit := fun w _ i g => (if i = 10 then g.overwrite correctReply else g, w)

/-- The client before the first operation, with zeros in `global_data`. -/
def initialClient : ClientState Unit := ⟨Vector.replicate 256 0#8, initialElements, ()⟩

lemma answering_correct : correct shippedKey shippedAnswer
    (maskReply (firstReply answering initialServer initialClient)) = true :=
  correctReply_answers.2

theorem flag_delivered_short :
    (24 ≤ 24 ∧ ∃ m S' c', Steps (System.Step emptyAssembler answering) m
        (System.validated answering (some [0x41#8]) initialServer initialClient) S' ∧
      S'.wire.right = .ret (c', false)) ∧
    ∀ c', (System.validated answering (some [0x41#8]) initialServer initialClient).wire.right =
        .ret (c', false) →
      (ending c' = some (untilNul (fgets [0x41#8])) ↔ (untilNul (fgets [0x41#8])).length ≤ 254) ∧
      (ending c' = some (fgets [0x41#8]) ↔
        (fgets [0x41#8]).length ≤ 254 ∧ 0#8 ∉ fgets [0x41#8]) :=
  flag_delivered_iff emptyAssembler answering [0x41#8] initialServer initialClient
    answering_correct (session_ends emptyAssembler answering _ initialServer initialClient)

/-- A line of 255 letters, one more than the client can print. -/
def longLine : List Byte := List.replicate 255 0x41#8

lemma length_untilNul_longLine : (untilNul (fgets longLine)).length = 255 := by
  have hprize : untilNul (fgets longLine) ++ [0#8] = longLine ++ [0#8] :=
    prize_replicate le_rfl (by decide) (by decide)
  rw [List.append_cancel_right hprize, longLine, List.length_replicate]

/-- **A flag of 255 characters is not delivered.** -/
theorem long_flag_not_delivered :
    ¬∀ (exec : Exec Unit) (file : List Byte) (s : Server) (c c' : ClientState Unit) (n : ℕ)
      (S : System Unit),
      correct shippedKey shippedAnswer (maskReply (firstReply exec s c)) = true →
      Steps (System.Step emptyAssembler exec) n
        (System.validation emptyAssembler exec (some file) s c) S →
      S.wire.right = .ret (c', false) → ending c' = some (untilNul (fgets file)) := by
  intro hall
  have hended := hall answering longLine initialServer initialClient _ 24 _ answering_correct
    (session_ends emptyAssembler answering (some longLine) initialServer initialClient) rfl
  have hlong : ¬(untilNul (fgets longLine)).length ≤ 254 := by
    rw [length_untilNul_longLine]
    decide
  rw [ending_validated longLine answering_correct, if_neg hlong] at hended
  cases hended

end Whuctf.Client
