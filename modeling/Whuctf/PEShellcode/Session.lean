import Whuctf.PEShellcode.RoundTrip

/-!
# The life of one engine

A session is an engine and the memory its caller works in, through any sequence of `Submit_Key`,
`Encrypt` and `Decrypt` calls, with the caller free to rewrite its memory between them.

`Submit_Key` overwrites every table before the schedule reads one, so what the engine held before
does not matter (`submitKey_eq_init`), and of the key it reads only the bytes below its length
(`submitKey_congr`).  The other two calls change no table.  So the engine of a session is always
that of a fresh engine given the last key (`engine_run`), and what holds after one key schedule
holds throughout.
-/

namespace Whuctf.PEShellcode

open BlowfishEngine

/-! ## One key schedule -/

/-- Two engines with the same tables, keyed or not: the tables are all that the cipher and the schedule
read. -/
def SameTables (e e' : BlowfishEngine) : Prop :=
  e.pEncrypt = e'.pEncrypt ∧ e.pDecrypt = e'.pDecrypt ∧ e.bfS = e'.bfS

/-- Two turns of the schedule at the same point: with the same pair of words and the same tables. -/
def SameSchedule (st st' : Schedule) : Prop :=
  st.left = st'.left ∧ st.right = st'.right ∧ SameTables st.engine st'.engine

lemma subKeyEncrypt_congr {e e' : BlowfishEngine} (h : SameTables e e') :
    e.subKeyEncrypt = e'.subKeyEncrypt := by
  obtain ⟨hE, -, hS⟩ := h
  funext left right
  rw [subKeyEncrypt, subKeyEncrypt, hE, hS]

lemma scheduleP_congr (k : Fin 9) {st st' : Schedule} (h : SameSchedule st st') :
    SameSchedule (scheduleP st k) (scheduleP st' k) := by
  obtain ⟨hl, hr, ht⟩ := h
  have hx := subKeyEncrypt_congr ht
  obtain ⟨hE, hD, hS⟩ := ht
  simp only [SameSchedule, SameTables, scheduleP, hl, hr, hx, hE, hD, hS, and_self]

lemma scheduleS_congr (b : Fin 4) (k : Fin 128) {st st' : Schedule} (h : SameSchedule st st') :
    SameSchedule (scheduleS b st k) (scheduleS b st' k) := by
  obtain ⟨hl, hr, ht⟩ := h
  have hx := subKeyEncrypt_congr ht
  obtain ⟨hE, hD, hS⟩ := ht
  simp only [SameSchedule, SameTables, scheduleS, hl, hr, hx, hE, hD, hS, and_self]

/-- The schedule reads nothing but the tables, so from the same tables it leaves the same tables. -/
lemma runSchedule_congr {e e' : BlowfishEngine} (h : SameTables e e') :
    SameTables e.runSchedule e'.runSchedule := by
  have hP : SameSchedule (Fin.foldl 9 scheduleP { left := 0, right := 0, engine := e })
      (Fin.foldl 9 scheduleP { left := 0, right := 0, engine := e' }) :=
    Loop.foldl_relation SameSchedule scheduleP scheduleP ⟨rfl, rfl, h⟩
      fun k _ _ => scheduleP_congr k
  have hS := Loop.foldl_relation SameSchedule
    (fun st b => Fin.foldl 128 (scheduleS b) st) (fun st b => Fin.foldl 128 (scheduleS b) st) hP
    fun b _ _ hst => Loop.foldl_relation SameSchedule (scheduleS b) (scheduleS b) hst
      fun k _ _ => scheduleS_congr b k
  exact hS.2.2

/-- The index of a key byte is below the length of the key. -/
lemma keyByte_congr {m m' : Memory ℕ} {key key' : ℕ} {length : ℤ} (hlength : length ≠ 0)
    (hbytes : ∀ i < length.natAbs, m (key + i) = m' (key' + i)) (j : ℕ) :
    keyByte m key length j = keyByte m' key' length j := by
  apply hbytes
  have hlt := Int.natAbs_tmod (j : ℤ) length
  have hpos : 0 < length.natAbs := Int.natAbs_pos.mpr hlength
  have hmod := Nat.mod_lt (j : ℤ).natAbs hpos
  omega

/-- The first loop reads the key at 72 values of the running index. -/
lemma mixKey_congr {m m' : Memory ℕ} {key key' : ℕ} {length length' : ℤ}
    (hbytes : ∀ j < 72, keyByte m key length j = keyByte m' key' length' j) :
    mixKey m key length = mixKey m' key' length' := by
  have hword : ∀ i : Fin 18, keyWord m key length (4 * i.val) = keyWord m' key' length' (4 * i.val) := by
    intro i
    simp only [keyWord, hbytes (4 * i.val) (by omega), hbytes (4 * i.val + 1) (by omega),
      hbytes (4 * i.val + 2) (by omega), hbytes (4 * i.val + 3) (by omega)]
  funext p
  simp only [mixKey, hword]

/-- The engine `Submit_Key` leaves without a key: the initial tables, whatever was in them before. -/
def resetEngine : BlowfishEngine where
  isKeyed := false
  pEncrypt := pInit
  pDecrypt := pInit
  bfS := sInit

lemma submitKey_null (e : BlowfishEngine) (m : Memory ℕ) {key : ℕ} {length : ℤ}
    (h : key = 0 ∨ length = 0) : submitKey e m key length = resetEngine := by
  rw [submitKey]
  exact if_pos h

/-- Of a key, the engine depends on the bytes that the running index selects. -/
lemma submitKey_congr_keyByte (e e' : BlowfishEngine) {m m' : Memory ℕ} {key key' : ℕ}
    {length length' : ℤ} (h : ¬(key = 0 ∨ length = 0)) (h' : ¬(key' = 0 ∨ length' = 0))
    (hbytes : ∀ j < 72, keyByte m key length j = keyByte m' key' length' j) :
    submitKey e m key length = submitKey e' m' key' length' := by
  have hmix := mixKey_congr hbytes
  have htables : SameTables
      { e with pEncrypt := mixKey m key length pInit, pDecrypt := pInit, bfS := sInit }
      { e' with pEncrypt := mixKey m' key' length' pInit, pDecrypt := pInit, bfS := sInit } :=
    ⟨by rw [hmix], rfl, rfl⟩
  obtain ⟨hE, hD, hS⟩ := runSchedule_congr htables
  simp only [submitKey, if_neg h, if_neg h', BlowfishEngine.mk.injEq]
  exact ⟨trivial, hE, hD, hS⟩

/-- **One key schedule.**  The engine after `Submit_Key` is decided by whether there is a key and
by its bytes below the length. -/
lemma submitKey_congr (e e' : BlowfishEngine) {m m' : Memory ℕ} {key key' : ℕ} {length : ℤ}
    (hnull : key = 0 ↔ key' = 0)
    (hbytes : ∀ i < length.natAbs, m (key + i) = m' (key' + i)) :
    submitKey e m key length = submitKey e' m' key' length := by
  by_cases h : key = 0 ∨ length = 0
  · rw [submitKey_null e m h, submitKey_null e' m' (h.imp_left hnull.mp)]
  · have h' : ¬(key' = 0 ∨ length = 0) := fun h' => h (h'.imp_left hnull.mpr)
    apply submitKey_congr_keyByte e e' h h'
    intro j _
    exact keyByte_congr (fun h0 => h (Or.inr h0)) hbytes j

/-- What the engine held before its key does not matter. -/
lemma submitKey_eq_init (e : BlowfishEngine) (m : Memory ℕ) (key : ℕ) (length : ℤ) :
    submitKey e m key length = submitKey init m key length :=
  submitKey_congr e init Iff.rfl fun _ _ => rfl

/-! ## Sessions -/

/-- An engine and the memory of its caller, from which the calls read keys and in which they translate
texts. -/
structure Session where
  engine : BlowfishEngine
  mem : Memory ℕ

/-- What the caller does: one of the three calls, or any change to its own memory. -/
inductive Call
  | submitKey (key : ℕ) (length : ℤ)
  | encrypt (plaintext : ℕ) (length : ℤ) (cyphertext : ℕ)
  | decrypt (cyphertext : ℕ) (length : ℤ) (plaintext : ℕ)
  | rewrite (mem : Memory ℕ)

/-- The calls of `Submit_Key`, among all a caller can do. -/
def Call.isSubmitKey : Call → Bool
  | .submitKey _ _ => true
  | _ => false

namespace Session

/-- One call, on the engine and the memory of the caller.  `Submit_Key` changes the engine, the two
translations change the memory, and the caller may rewrite its memory as it likes. -/
def step (s : Session) : Call → Session
  | .submitKey key length => { s with engine := s.engine.submitKey s.mem key length }
  | .encrypt plaintext length cyphertext =>
      { s with mem := (s.engine.encrypt s.mem plaintext length cyphertext).2 }
  | .decrypt cyphertext length plaintext =>
      { s with mem := (s.engine.decrypt s.mem cyphertext length plaintext).2 }
  | .rewrite mem => { s with mem := mem }

/-- A sequence of calls on one engine, the first one first. -/
def run (s : Session) (calls : List Call) : Session := calls.foldl step s

/-- The destructor, as it leaves the tables: a keyed engine is given no key, which sets its tables
back, and another is left alone. -/
def destroy (s : Session) : BlowfishEngine :=
  if s.engine.isKeyed then s.engine.submitKey s.mem 0 0 else s.engine

/-- A new engine, with the memory its caller has. -/
def start (m : Memory ℕ) : Session where
  engine := init
  mem := m

/-- Only `Submit_Key` changes the engine; the other calls translate memory under the tables there are. -/
lemma engine_step (s : Session) {c : Call} (h : c.isSubmitKey = false) :
    (s.step c).engine = s.engine := by
  cases c with
  | submitKey => exact absurd h (by simp [Call.isSubmitKey])
  | _ => rfl

lemma engine_run_of_no_key (s : Session) (calls : List Call)
    (h : ∀ c ∈ calls, c.isSubmitKey = false) : (s.run calls).engine = s.engine := by
  induction calls generalizing s with
  | nil => rfl
  | cons c calls ih =>
      rw [run, List.foldl_cons, ← run, ih _ fun c' hc' => h c' (List.mem_cons_of_mem c hc'),
        engine_step s (h c List.mem_cons_self)]

/-- The engine of a session is that of a fresh engine given its last key. -/
lemma engine_run (s : Session) (before after : List Call) (key : ℕ) (length : ℤ)
    (h : ∀ c ∈ after, c.isSubmitKey = false) :
    (s.run (before ++ .submitKey key length :: after)).engine =
      submitKey init (s.run before).mem key length := by
  rw [run, List.foldl_append, List.foldl_cons, ← run, ← run, engine_run_of_no_key _ after h]
  exact submitKey_eq_init _ _ _ _

/-- Every engine a session reaches is new or fresh from a key schedule. -/
lemma engine_reachable (m : Memory ℕ) (calls : List Call) :
    ((start m).run calls).engine = init ∨
      ∃ m' key length, ((start m).run calls).engine = submitKey init m' key length := by
  induction calls using List.reverseRecOn with
  | nil => exact Or.inl rfl
  | append_singleton calls c ih =>
      rw [run, List.foldl_append, List.foldl_cons, List.foldl_nil, ← run]
      cases hc : c.isSubmitKey with
      | false => rwa [engine_step _ hc]
      | true =>
          cases c with
          | submitKey key length =>
              exact Or.inr ⟨_, key, length, submitKey_eq_init _ _ key length⟩
          | _ => exact absurd hc (by simp [Call.isSubmitKey])

/-- A keyed engine decrypts under the reversed subkeys; an engine without key holds constants. -/
lemma engine_tables (m : Memory ℕ) (calls : List Call) :
    (((start m).run calls).engine.isKeyed = true → Reversed ((start m).run calls).engine) ∧
      (((start m).run calls).engine.isKeyed = false →
        ((start m).run calls).engine = init ∨ ((start m).run calls).engine = resetEngine) := by
  rcases engine_reachable m calls with h | ⟨m', key, length, h⟩
  · rw [h]
    exact ⟨fun hkeyed => absurd hkeyed (by simp [init]), fun _ => Or.inl rfl⟩
  rw [h]
  by_cases hnull : key = 0 ∨ length = 0
  · rw [submitKey_null init m' hnull]
    exact ⟨fun hkeyed => absurd hkeyed (by simp [resetEngine]), fun _ => Or.inr rfl⟩
  · rw [not_or] at hnull
    obtain ⟨hkeyed, hrev⟩ := submitKey_reversed init m' length hnull.1 hnull.2
    exact ⟨fun _ => hrev, fun hun => absurd (hkeyed.symm.trans hun) (by simp)⟩

end Session

open Session

/-- **The tables of an engine.**  After any calls on a new engine:
* the engine is that of a fresh engine given the last key alone, and two sessions whose last keys
  have the same bytes hold the same engine;
* when it is keyed, `P_Decrypt` is `P_Encrypt` read backwards;
* `Encrypt` and `Decrypt` change no table;
* without a key, as the destructor submits it, `Submit_Key` leaves the constant tables, and the
  engine behind the destructor is one of two constants. -/
theorem tables_of_last_key (m : Memory ℕ) (calls : List Call) :
    ((∀ c ∈ calls, c.isSubmitKey = false) → ((start m).run calls).engine = init) ∧
    (∀ before key length after, calls = before ++ .submitKey key length :: after →
      (∀ c ∈ after, c.isSubmitKey = false) →
      ((start m).run calls).engine = submitKey init ((start m).run before).mem key length ∧
      ∀ m' before' key' after', (∀ c ∈ after', c.isSubmitKey = false) → (key = 0 ↔ key' = 0) →
        (∀ i < length.natAbs, ((start m).run before).mem (key + i) =
          ((start m').run before').mem (key' + i)) →
        ((start m).run calls).engine =
          ((start m').run (before' ++ .submitKey key' length :: after')).engine) ∧
    (((start m).run calls).engine.isKeyed = true → ∀ i : Fin 18,
      ((start m).run calls).engine.pDecrypt.get i =
        ((start m).run calls).engine.pEncrypt.get i.rev) ∧
    (∀ src length dst,
      (((start m).run calls).step (.encrypt src length dst)).engine =
        ((start m).run calls).engine ∧
      (((start m).run calls).step (.decrypt src length dst)).engine =
        ((start m).run calls).engine) ∧
    (((start m).run calls).step (.submitKey 0 0)).engine =
      { isKeyed := false, pEncrypt := pInit, pDecrypt := pInit, bfS := sInit } ∧
    (((start m).run calls).destroy = init ∨ ((start m).run calls).destroy = resetEngine) := by
  obtain ⟨hrev, hconst⟩ := engine_tables m calls
  have hreset : submitKey ((start m).run calls).engine ((start m).run calls).mem 0 0 =
      resetEngine := submitKey_null _ _ (Or.inl rfl)
  refine ⟨engine_run_of_no_key _ calls, ?_, ?_, fun _ _ _ => ⟨rfl, rfl⟩, ?_, ?_⟩
  · rintro before key length after rfl hafter
    refine ⟨engine_run _ before after key length hafter, ?_⟩
    intro m' before' key' after' hafter' hnull hbytes
    rw [engine_run _ before after key length hafter, engine_run _ before' after' key' length hafter']
    exact submitKey_congr _ _ hnull hbytes
  · intro hkeyed i
    have hback := hrev hkeyed i.rev
    have hrevrev : 17 - i.rev.val = i.val := by rw [Fin.val_rev]; omega
    simp only [Fin.getElem_fin, hrevrev] at hback
    exact hback
  · exact hreset
  · rw [destroy]
    split
    · exact Or.inr hreset
    · rename_i hkeyed
      exact hconst (Bool.eq_false_of_not_eq_true hkeyed)

/-- A second key on an engine that has been used under a first one. -/
theorem tables_of_last_key_rekeyed :
    ((start (BitVec.ofNat 8)).run
        [.submitKey 1 1, .encrypt 16 8 64, .submitKey 5 3, .decrypt 64 8 16]).engine =
      submitKey init
        ((start (BitVec.ofNat 8)).run [.submitKey 1 1, .encrypt 16 8 64]).mem 5 3 :=
  ((tables_of_last_key (BitVec.ofNat 8)
    [.submitKey 1 1, .encrypt 16 8 64, .submitKey 5 3, .decrypt 64 8 16]).2.1
    [.submitKey 1 1, .encrypt 16 8 64] 5 3 [.decrypt 64 8 16] rfl
    (fun c hc => by rw [List.mem_singleton.mp hc]; rfl)).1

end Whuctf.PEShellcode
