import Whuctf.Client.Operations
import Whuctf.Client.Server

/-!
# The flag and the next connection

The flag is meant for the client that answered.  The server copies it into `global_data`, which
it sends with the next operation, and `global_data` outlives the connection.  What clears it is
the element the client sends back after `OPT_EXIT`, and the server does not look at how much of
it arrived.  A client that answers correctly and then closes leaves the flag for whoever
connects next, who is sent it with the first operation (`flag_not_secret`).

The same unchecked read is behind the other way to be sent the flag without answering: a short
reply to `OPT_EXEC 10` is completed by what `global_data` already held.

`Careful` says that neither happens: a reply the server finds correct has its 32 bytes from the
client, and unless the connection is the last, the element after `OPT_EXIT` arrives in full.  In
every run that is careful no client is sent anything that depends on the flag before it has
answered (`flag_secret_of_careful`).
-/

namespace Whuctf.Client

open Proc (Outcome)

/-- The connection up to the `read` of the reply to `OPT_EXEC 10`: the pointers, the loading of the
slots, and the announcement of slot 10. -/
def untilReply (ksAsm : Assembler) (s : Server) : Proc Server Server := do
  let s ← readPointers s
  let s ← setupBuiltinFunctions ksAsm s
  let s ← loadExecutableFunctions ksAsm s
  announce ksAsm s .exec 10#32 []
  pure s

/-- The client's reply to `OPT_EXEC 10`, as much of it as one `read` delivers.  The server does not
look at the count, so this may be any number of bytes up to 256. -/
def reply (ksAsm : Assembler) (s : Server) (script : Connection) : List Byte :=
  nextChunk 256 ((untilReply ksAsm s).replay script).rest

/-- What comes back after `OPT_EXIT`, again as much as one `read` delivers.  It is stored over
`global_data`, and what it does not cover stays there. -/
def exitEcho (ksAsm : Assembler) (s : Server) (script : Connection) : List Byte :=
  nextChunk 256 ((untilReply ksAsm s).replay script).rest.tail.tail

/-- The reply has the correct 32 bytes: it is long enough for the blocks the server compares, and these
agree; what follows them is not looked at. -/
def Answers (chunk : List Byte) : Prop :=
  32 ≤ chunk.length ∧
    correct shippedKey shippedAnswer
      (maskReply (Element.overwrite (Vector.replicate 256 0#8) chunk)) = true

instance (chunk : List Byte) : Decidable (Answers chunk) := instDecidableAnd

/-- The server finds the reply correct, whether its bytes are all from the client or some were left in
`global_data`. -/
def Accepted (ksAsm : Assembler) (s : Server) (script : Connection) : Prop :=
  ∃ s₁, ((untilReply ksAsm s).replay script).result = .ok s₁ ∧
    correct shippedKey shippedAnswer
      (maskReply (s₁.globalData.overwrite (reply ksAsm s script))) = true

variable (ksAsm : Assembler) (flagFile : Option (List Byte))

/-- The bytes a connection is sent before its client has answered `OPT_EXEC 10` correctly: all of
them when it never does. -/
def sentBeforeAnswer (s : Server) (script : Connection) : List Byte :=
  if Answers (reply ksAsm s script) then ((untilReply ksAsm s).replay script).written
  else ((handleConnection ksAsm flagFile s).replay script).written

/-- The accept loop: what each connection is sent before its client has answered.  The globals are
handed from one connection to the next, as in a program whose buffers are static.  A failure to
assemble ends the program. -/
def serve : Server → List Connection → List (List Byte)
  | _, [] => []
  | s, script :: more =>
      sentBeforeAnswer ksAsm flagFile s script ::
        match ((handleConnection ksAsm flagFile s).replay script).result with
        | .ok s' => serve s' more
        | .error _ => []

/-- The globals at the start of the program: static storage, so zeros in `global_data` and two null
pointers. -/
def initialServer : Server := ⟨Vector.replicate 256 0#8, 0#64, 0#64⟩

/-- Every reply found correct is the client's own, and the element after `OPT_EXIT` arrives in
full when it was and another connection follows. -/
def Careful : Server → List Connection → Prop
  | _, [] => True
  | s, script :: more =>
      (Accepted ksAsm s script → 32 ≤ (reply ksAsm s script).length ∧
        (more ≠ [] → (exitEcho ksAsm s script).length = 256)) ∧
      ∀ s', ((handleConnection ksAsm flagFile s).replay script).result = .ok s' →
        Careful s' more

/-! ## One connection

A session is cut at the reply.  Up to there it does not look at the flag; what follows is split at the
verdict and again at `OPT_EXIT`, and for each part it is said what it writes and what it leaves in the
globals. -/

lemma handleConnection_eq (s : Server) :
    handleConnection ksAsm flagFile s =
      (untilReply ksAsm s).bind fun s₁ =>
        (readEcho s₁).bind fun s₂ => giveVerdict ksAsm flagFile s₂ := by
  simp only [handleConnection, untilReply, runValidation, operationDispatcher,
    Proc.monad_bind_eq, Proc.bind_assoc, Proc.monad_pure_eq, Proc.ret_bind]

/-- `global_data` when `OPT_EXIT` is announced, with the reply in `s` and the rest of the script
still to be read. -/
def exitSync (s : Server) (script : Connection) : Element :=
  reward flagFile (correct shippedKey shippedAnswer (maskReply s.globalData))
    (Element.overwrite (maskReply s.globalData) (nextChunk 256 script))

/-- What a session writes after the reply, and what it leaves behind: with the correct verdict
`global_data` holds the flag, and without it nothing has changed. -/
lemma replay_giveVerdict (s : Server) (script : Connection) :
    (giveVerdict ksAsm flagFile s).replay script =
      ⟨(maskReply s.globalData).toList ++ ([2#8] ++ (Word32.bytesLE 14#32 ++
          ((exitSync flagFile s script).toList ++ ([3#8] ++ [])))),
        .ok { s with
          globalData := (exitSync flagFile s script).overwrite (nextChunk 256 script.tail) },
        script.tail.tail⟩ := rfl

lemma replay_readEcho (s : Server) (script : Connection) :
    (readEcho s).replay script =
      ⟨[], .ok { s with globalData := s.globalData.overwrite (nextChunk 256 script) },
        script.tail⟩ := rfl

/-- A whole connection, from the state in which the reply is read. -/
lemma replay_handleConnection {s s₁ : Server} {script : Connection}
    (h : ((untilReply ksAsm s).replay script).result = .ok s₁) :
    (handleConnection ksAsm flagFile s).replay script =
      let s₂ := { s₁ with globalData := s₁.globalData.overwrite (reply ksAsm s script) }
      let o := (giveVerdict ksAsm flagFile s₂).replay ((untilReply ksAsm s).replay script).rest.tail
      { o with written := ((untilReply ksAsm s).replay script).written ++ o.written } := by
  rw [handleConnection_eq, Proc.replay_bind, h]
  dsimp only
  rw [Proc.replay_bind, replay_readEcho]
  rfl

lemma replay_handleConnection_error {s s₁ : Server} {script : Connection}
    (h : ((untilReply ksAsm s).replay script).result = .error s₁) :
    (handleConnection ksAsm flagFile s).replay script =
      ⟨((untilReply ksAsm s).replay script).written, .error s₁,
        ((untilReply ksAsm s).replay script).rest⟩ := by
  rw [handleConnection_eq, Proc.replay_bind, h]

/-- The verdict on a reply of at least 32 bytes does not depend on what it is stored over. -/
lemma correct_overwrite (key answer : List Byte) {chunk : List Byte} (h : 32 ≤ chunk.length)
    (g g' : Element) :
    correct key answer (maskReply (g.overwrite chunk)) =
      correct key answer (maskReply (g'.overwrite chunk)) := by
  have htake : (maskReply (g.overwrite chunk)).toList.take 32 =
      (maskReply (g'.overwrite chunk)).toList.take 32 := by
    refine List.ext_getElem (by simp) fun i hi _ => ?_
    have hi32 : i < 32 := by
      rw [List.length_take] at hi
      omega
    simp only [List.getElem_take, Vector.getElem_toList, maskReply, Vector.getElem_mapIdx,
      Element.getElem_overwrite]
    rw [List.getElem?_eq_getElem (by omega)]
    rfl
  rw [correct, correct, htake]

lemma reward_false (flagFile' : Option (List Byte)) (g : Element) :
    reward flagFile false g = reward flagFile' false g := rfl

/-- A connection whose accepted reply is the client's own is sent the same for every flag, since the
flag enters only behind the answer. -/
lemma sentBeforeAnswer_secret (flagFile' : Option (List Byte)) {s : Server} {script : Connection}
    (h : Accepted ksAsm s script → 32 ≤ (reply ksAsm s script).length) :
    sentBeforeAnswer ksAsm flagFile s script = sentBeforeAnswer ksAsm flagFile' s script := by
  unfold sentBeforeAnswer
  by_cases hanswers : Answers (reply ksAsm s script)
  · rw [if_pos hanswers, if_pos hanswers]
  · rw [if_neg hanswers, if_neg hanswers]
    cases hresult : ((untilReply ksAsm s).replay script).result with
    | error s₁ =>
        rw [replay_handleConnection_error ksAsm flagFile hresult,
          replay_handleConnection_error ksAsm flagFile' hresult]
    | ok s₁ =>
        -- not answered, so not accepted either
        have hverdict : correct shippedKey shippedAnswer
            (maskReply (s₁.globalData.overwrite (reply ksAsm s script))) = false := by
          by_contra hcorrect
          rw [Bool.not_eq_false] at hcorrect
          have hlength := h ⟨s₁, hresult, hcorrect⟩
          refine hanswers ⟨hlength, ?_⟩
          rw [correct_overwrite _ _ hlength _ s₁.globalData]
          exact hcorrect
        rw [replay_handleConnection ksAsm flagFile hresult,
          replay_handleConnection ksAsm flagFile' hresult]
        simp only [replay_giveVerdict, exitSync, hverdict, reward_false flagFile flagFile']

/-- A connection whose accepted reply is followed by a full element leaves the same globals for
every flag. -/
lemma result_secret (flagFile' : Option (List Byte)) {s : Server} {script : Connection}
    (h : Accepted ksAsm s script → (exitEcho ksAsm s script).length = 256) :
    ((handleConnection ksAsm flagFile s).replay script).result =
      ((handleConnection ksAsm flagFile' s).replay script).result := by
  cases hresult : ((untilReply ksAsm s).replay script).result with
  | error s₁ =>
      rw [replay_handleConnection_error ksAsm flagFile hresult,
        replay_handleConnection_error ksAsm flagFile' hresult]
  | ok s₁ =>
      rw [replay_handleConnection ksAsm flagFile hresult,
        replay_handleConnection ksAsm flagFile' hresult]
      simp only [replay_giveVerdict]
      by_cases hverdict : correct shippedKey shippedAnswer
          (maskReply (s₁.globalData.overwrite (reply ksAsm s script))) = true
      · have hfull := h ⟨s₁, hresult, hverdict⟩
        rw [exitEcho] at hfull
        rw [Element.overwrite_of_length hfull]
      · rw [Bool.not_eq_true] at hverdict
        simp only [exitSync, hverdict, reward_false flagFile flagFile']

/-! ## All connections

The induction is on the list of connections, with the globals at the start of each the same for both
flags.  That is what a careful connection hands on to the next. -/

/-- **The flag is secret in careful runs.**  What each connection is sent before its client has
answered `OPT_EXEC 10` correctly is the same for every flag file. -/
lemma flag_secret_of_careful (flagFile' : Option (List Byte)) (s : Server)
    (connections : List Connection) (hcareful : Careful ksAsm flagFile s connections) :
    serve ksAsm flagFile s connections = serve ksAsm flagFile' s connections := by
  induction connections generalizing s with
  | nil => rfl
  | cons script more ih =>
      obtain ⟨hreply, hrest⟩ := hcareful
      have hsent := sentBeforeAnswer_secret ksAsm flagFile flagFile' fun h => (hreply h).1
      rw [serve, serve, hsent]
      by_cases hmore : more = []
      · subst hmore
        have hend : ∀ (file : Option (List Byte)) (r : Except Server Server),
            (match r with
              | .ok s' => serve ksAsm file s' []
              | .error _ => []) = [] := by
          intro file r
          cases r with
          | ok s' => rfl
          | error s' => rfl
        rw [hend, hend]
      · have hresult := result_secret ksAsm flagFile flagFile' fun h => (hreply h).2 hmore
        rw [← hresult]
        cases hs' : ((handleConnection ksAsm flagFile s).replay script).result with
        | ok s' => exact congrArg _ (ih s' (hrest s' hs'))
        | error s' => rfl

/-! ## Careless connections

The converse needs flags that show.  A line of equal characters fills `global_data` as far as it is
long, so two of them, of one character or of two lengths, differ at any byte that matters. -/

/-- Every connection starts with the server's element, so what it is sent shows the globals it begins
with. -/
lemma sentBeforeAnswer_prefix (s : Server) (script : Connection) :
    ∃ t, sentBeforeAnswer ksAsm flagFile s script = s.globalData.toList ++ t := by
  obtain ⟨t, ht⟩ : ∃ t, ((untilReply ksAsm s).replay script).written = s.globalData.toList ++ t :=
    ⟨_, rfl⟩
  unfold sentBeforeAnswer
  by_cases hanswers : Answers (reply ksAsm s script)
  · rw [if_pos hanswers]
    exact ⟨t, ht⟩
  · rw [if_neg hanswers, handleConnection_eq, Proc.replay_bind]
    cases ((untilReply ksAsm s).replay script).result with
    | error s₁ => exact ⟨t, ht⟩
    | ok s₁ =>
        dsimp only
        rw [ht, List.append_assoc]
        exact ⟨_, rfl⟩

/-- A line without a terminator goes into `global_data` as it is. -/
lemma prize_replicate {b : Byte} {n : ℕ} (hn : n ≤ 255) (hb : b ≠ 0#8) (hline : b ≠ 0x0A#8) :
    prize (some (List.replicate n b)) = List.replicate n b ++ [0#8] := by
  have hnot : 0x0A#8 ∉ List.replicate n b := by
    intro h
    exact hline (List.eq_of_mem_replicate h).symm
  have hfgets : fgets (List.replicate n b) = List.replicate n b := by
    have htake : (List.replicate n b).take 255 = List.replicate n b :=
      List.take_of_length_le (by simpa using hn)
    rw [fgets]
    simp only [htake, List.idxOf_eq_length hnot]
    exact List.take_of_length_le (by omega)
  rw [prize, hfgets, cString, List.takeWhile_replicate, if_pos (by simpa using hb)]

lemma getElem_reward_replicate (g : Element) {b : Byte} {n i : ℕ} (hn : n ≤ 255)
    (hb : b ≠ 0#8) (hline : b ≠ 0x0A#8) (hi : i < 256) :
    (reward (some (List.replicate n b)) true g)[i] =
      if i < n then b else if i = n then 0#8 else (g.set 255 1#8)[i] := by
  have hreward : reward (some (List.replicate n b)) true g =
      Element.overwrite (g.set 255 1#8) (List.replicate n b ++ [0#8]) := by
    rw [← prize_replicate hn hb hline]
    rfl
  rw [hreward, Element.getElem_overwrite]
  by_cases hlt : i < n
  · rw [if_pos hlt, List.getElem?_append_left (by simpa using hlt)]
    simp [hlt]
  · rw [if_neg hlt, List.getElem?_append_right (by simpa using hlt)]
    by_cases heq : i = n
    · simp [heq]
    · rw [if_neg heq, List.getElem?_eq_none (by simp; omega)]
      rfl

/-- The globals an accepted connection leaves: the element with the flag in it, overwritten by what
came back after `OPT_EXIT`. -/
lemma result_of_accepted {s s₁ : Server} {script : Connection}
    (h : ((untilReply ksAsm s).replay script).result = .ok s₁)
    (hcorrect : correct shippedKey shippedAnswer
      (maskReply (s₁.globalData.overwrite (reply ksAsm s script))) = true) :
    ∃ g : Element, ∀ file, ((handleConnection ksAsm file s).replay script).result =
      .ok { s₁ with globalData :=
        (reward file true g).overwrite (exitEcho ksAsm s script) } := by
  refine ⟨Element.overwrite (maskReply (s₁.globalData.overwrite (reply ksAsm s script)))
    (nextChunk 256 ((untilReply ksAsm s).replay script).rest.tail), fun file => ?_⟩
  rw [replay_handleConnection ksAsm file h]
  simp only [replay_giveVerdict, exitSync, hcorrect]
  rfl

/-- What an accepted connection is sent contains `global_data` with the flag in it. -/
lemma written_of_accepted {s s₁ : Server} {script : Connection}
    (h : ((untilReply ksAsm s).replay script).result = .ok s₁)
    (hcorrect : correct shippedKey shippedAnswer
      (maskReply (s₁.globalData.overwrite (reply ksAsm s script))) = true) :
    ∃ (g : Element) (before after : List Byte), ∀ file,
      ((handleConnection ksAsm file s).replay script).written =
        before ++ ((reward file true g).toList ++ after) := by
  refine ⟨Element.overwrite (maskReply (s₁.globalData.overwrite (reply ksAsm s script)))
    (nextChunk 256 ((untilReply ksAsm s).replay script).rest.tail),
    ((untilReply ksAsm s).replay script).written ++
    ((maskReply (s₁.globalData.overwrite (reply ksAsm s script))).toList ++
      ([2#8] ++ Word32.bytesLE 14#32)), [3#8] ++ [], fun file => ?_⟩
  rw [replay_handleConnection ksAsm file h]
  simp only [replay_giveVerdict, exitSync, hcorrect, List.append_assoc]

/-- An accepted reply that is not the client's own is sent the flag: its last bytes are those
`global_data` held, and what it is sent next contains that element with the flag in it. -/
lemma reply_of_secret {s : Server} {script : Connection}
    (hsent : ∀ file file', sentBeforeAnswer ksAsm file s script =
      sentBeforeAnswer ksAsm file' s script)
    (haccepted : Accepted ksAsm s script) : 32 ≤ (reply ksAsm s script).length := by
  by_contra hshort
  obtain ⟨s₁, hresult, hcorrect⟩ := haccepted
  obtain ⟨g, before, after, hwritten⟩ := written_of_accepted ksAsm hresult hcorrect
  have hnot : ¬Answers (reply ksAsm s script) := fun h => hshort h.1
  have hsame := hsent (some (List.replicate 1 0x41#8)) (some (List.replicate 1 0x42#8))
  unfold sentBeforeAnswer at hsame
  rw [if_neg hnot, if_neg hnot, hwritten, hwritten] at hsame
  have hlists := (List.append_inj (List.append_cancel_left hsame) (by simp)).1
  have hbyte := congrArg (fun e : Element => e[0]) (Vector.toList_inj.mp hlists)
  have hfirst : (reward (some (List.replicate 1 0x41#8)) true g)[0] = 0x41#8 := by
    rw [getElem_reward_replicate g (by decide) (by decide) (by decide)]
    rfl
  have hsecond : (reward (some (List.replicate 1 0x42#8)) true g)[0] = 0x42#8 := by
    rw [getElem_reward_replicate g (by decide) (by decide) (by decide)]
    rfl
  exact absurd (hfirst.symm.trans (hbyte.trans hsecond)) (by decide)

/-- What a connection is sent shows the globals it starts with, since its first call begins with
`global_data`. -/
lemma globalData_of_sent {file file' : Option (List Byte)} {s s' : Server} {script : Connection}
    (h : sentBeforeAnswer ksAsm file s script = sentBeforeAnswer ksAsm file' s' script) :
    s.globalData = s'.globalData := by
  obtain ⟨t, ht⟩ := sentBeforeAnswer_prefix ksAsm file s script
  obtain ⟨t', ht'⟩ := sentBeforeAnswer_prefix ksAsm file' s' script
  rw [ht, ht'] at h
  exact Vector.toList_inj.mp (List.append_inj h (by simp)).1

/-- Behind an accepted connection, what the element after `OPT_EXIT` did not cover is sent to the
next one. -/
lemma reward_of_serve {s : Server} {script : Connection} (next : Connection)
    (more : List Connection) (haccepted : Accepted ksAsm s script) :
    ∃ g : Element, ∀ file file', serve ksAsm file s (script :: next :: more) =
        serve ksAsm file' s (script :: next :: more) →
      ∀ i (hi : i < 256), (exitEcho ksAsm s script).length ≤ i →
        (reward file true g)[i] = (reward file' true g)[i] := by
  obtain ⟨s₁, hresult, hcorrect⟩ := haccepted
  obtain ⟨g, hleft⟩ := result_of_accepted ksAsm hresult hcorrect
  refine ⟨g, fun file file' hsame i hi hle => ?_⟩
  rw [serve, serve, hleft, hleft] at hsame
  simp only [serve] at hsame
  obtain ⟨-, htail⟩ := List.cons.inj hsame
  obtain ⟨hnext, -⟩ := List.cons.inj htail
  have hglobal := congrArg (fun e : Element => e[i]) (globalData_of_sent ksAsm hnext)
  simpa only [Element.getElem_overwrite, List.getElem?_eq_none hle, Option.getD_none] using hglobal

/-- An element after `OPT_EXIT` that does not arrive in full leaves the last byte, and that one
tells a flag that fills the element from a shorter one. -/
lemma exitEcho_of_secret {s : Server} {script : Connection} {next : Connection}
    {more : List Connection}
    (hserve : ∀ file file', serve ksAsm file s (script :: next :: more) =
      serve ksAsm file' s (script :: next :: more))
    (haccepted : Accepted ksAsm s script) : (exitEcho ksAsm s script).length = 256 := by
  by_contra hpartial
  obtain ⟨g, hleft⟩ := reward_of_serve ksAsm next more haccepted
  have hshort : (exitEcho ksAsm s script).length ≤ 255 := by
    have hle : (exitEcho ksAsm s script).length ≤ 256 := List.length_take_le _ _
    omega
  have hlast := hleft (some (List.replicate 0 0x41#8)) (some (List.replicate 255 0x41#8))
    (hserve _ _) 255 (by decide) hshort
  have hset : (reward (some (List.replicate 0 0x41#8)) true g)[255] = 1#8 := by
    rw [getElem_reward_replicate g (by decide) (by decide) (by decide)]
    exact Vector.getElem_set_self (by decide)
  have hcleared : (reward (some (List.replicate 255 0x41#8)) true g)[255] = 0#8 := by
    rw [getElem_reward_replicate g (by decide) (by decide) (by decide)]
    rfl
  exact absurd (hset.symm.trans (hlast.trans hcleared)) (by decide)

/-- A run in which no flag shows is careful.  The connections are taken in order, since one that is
careful leaves globals in which the flag has no part. -/
lemma careful_of_secret (s : Server) (connections : List Connection)
    (h : ∀ file, serve ksAsm flagFile s connections = serve ksAsm file s connections) :
    Careful ksAsm flagFile s connections := by
  induction connections generalizing s with
  | nil => trivial
  | cons script more ih =>
      have hpair : ∀ file file', serve ksAsm file s (script :: more) =
          serve ksAsm file' s (script :: more) :=
        fun file file' => (h file).symm.trans (h file')
      have hsent : ∀ file file', sentBeforeAnswer ksAsm file s script =
          sentBeforeAnswer ksAsm file' s script :=
        fun file file' => (List.cons.inj (hpair file file')).1
      have hecho : Accepted ksAsm s script → more ≠ [] →
          (exitEcho ksAsm s script).length = 256 := by
        intro haccepted hmore
        cases more with
        | nil => exact absurd rfl hmore
        | cons next more => exact exitEcho_of_secret ksAsm hpair haccepted
      refine ⟨fun ha => ⟨reply_of_secret ksAsm hsent ha, hecho ha⟩, fun s' hs' => ?_⟩
      by_cases hmore : more = []
      · subst hmore
        trivial
      · refine ih s' fun file => ?_
        have hresult := result_secret ksAsm flagFile file fun ha => hecho ha hmore
        have htail := (List.cons.inj (h file)).2
        rw [← hresult, hs'] at htail
        exact htail

/-- **Exactly the careful runs keep the flag secret.**  What each connection is sent before its
client has answered `OPT_EXEC 10` correctly is the same for every flag file if and only if every
accepted reply was the client's own and every accepted connection but the last got its element
after `OPT_EXIT` back in full. -/
theorem flag_secret_iff_careful (s : Server) (connections : List Connection) :
    (∀ file, serve ksAsm flagFile s connections = serve ksAsm file s connections) ↔
      Careful ksAsm flagFile s connections := by
  constructor
  · exact careful_of_secret ksAsm flagFile s connections
  · intro hcareful file
    exact flag_secret_of_careful ksAsm flagFile file s connections hcareful

/-! ### A leak -/

/-- The 32 bytes the server takes for correct, in front of the mask and the cipher. -/
def correctReply : List Byte :=
  [ 0x4e, 0x4f, 0x43, 0x54, 0x46, 0x7b, 0x43, 0x34, 0x6c, 0x43, 0x75, 0x31, 0x61, 0x37, 0x65, 0x5f,
    0x30, 0x6e, 0x6c, 0x69, 0x4e, 0x33, 0x5f, 0x31, 0x73, 0x5f, 0x46, 0x34, 0x6b, 0x45, 0x21, 0x7d ]

lemma correctReply_answers : Answers correctReply := by
  refine ⟨by decide, ?_⟩
  have hmasked : (maskReply (Element.overwrite (Vector.replicate 256 0#8) correctReply)).toList.take
      32 = (object (correctReply.map (· ^^^ 0x1F#8))).read 0 32 := by
    rw [read_object_self (by decide)]
    refine List.ext_getElem (by simp [correctReply]) fun i hi _ => ?_
    have hi32 : i < 32 := by
      rw [List.length_take] at hi
      exact (Nat.lt_min.mp hi).1
    have hlength : i < correctReply.length := hi32
    simp [maskReply, Element.getElem_overwrite, hi32, hlength]
  rw [correct, beq_iff_eq, hmasked, read_eq_iff_blocks]
  intro j hj
  rw [Nat.cast_id, Nat.zero_add, loadBlock_solvedAnswer _ _ hj]
  revert j
  decide +kernel

/-- A client that sends one byte for each pointer and each element, the correct reply, one more byte,
and then closes without answering `OPT_EXIT`.  Each of these counts is one a `read` may return. -/
def leakyConnection : Connection :=
  List.replicate 15 [0#8] ++ [correctReply, [0#8]]

/-- The assembler of the leak, which turns every text into nothing; the codes of the slots do not
matter there. -/
def emptyAssembler : Assembler := fun _ => some []

/-- The connection is accepted, and nothing comes back after `OPT_EXIT`, so that the last read returns
no bytes. -/
lemma leakyConnection_accepted : Accepted emptyAssembler initialServer leakyConnection ∧
    exitEcho emptyAssembler initialServer leakyConnection = [] := by
  have hreply : reply emptyAssembler initialServer leakyConnection = correctReply := rfl
  obtain ⟨s₁, hresult⟩ : ∃ s₁,
      ((untilReply emptyAssembler initialServer).replay leakyConnection).result = .ok s₁ := ⟨_, rfl⟩
  obtain ⟨hlength, hcorrect⟩ := correctReply_answers
  refine ⟨⟨s₁, hresult, ?_⟩, rfl⟩
  rw [hreply, correct_overwrite _ _ hlength _ (Vector.replicate 256 0#8)]
  exact hcorrect

/-- **The flag is not secret.**  Behind the leaky connection the next client, which sends nothing,
is sent the flag. -/
theorem flag_not_secret :
    serve emptyAssembler (some [0x41#8]) initialServer [leakyConnection, []] ≠
      serve emptyAssembler (some [0x42#8]) initialServer [leakyConnection, []] := by
  intro hsame
  obtain ⟨haccepted, hecho⟩ := leakyConnection_accepted
  obtain ⟨g, hleft⟩ := reward_of_serve emptyAssembler [] [] haccepted
  have hbyte := hleft (some (List.replicate 1 0x41#8)) (some (List.replicate 1 0x42#8)) hsame 0
    (by decide) (by rw [hecho]; exact le_rfl)
  rw [getElem_reward_replicate g (by decide) (by decide) (by decide),
    getElem_reward_replicate g (by decide) (by decide) (by decide)] at hbyte
  exact absurd hbyte (by decide : (0x41#8 : Byte) ≠ 0x42#8)

end Whuctf.Client
