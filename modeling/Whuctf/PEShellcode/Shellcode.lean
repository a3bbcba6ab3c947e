import Whuctf.Library.Scope
import Whuctf.PEShellcode.Hooks

/-!
# The solution of the shellcode task

`gh4t_shellcode` runs in place of `WinMain`.  It makes four objects of the game to open the file that
holds the flag, each with `GameCreateUnique`, and returns early when a pointer is null or the file is not
there.  The attachment stops at this point; the solution reads the file, looks for the byte that makes its
first byte an `f`, and shows the file with this byte on every other one.

Whatever the functions of the game do, every method is called on an object that lives and every object is
destroyed, the last one first, on every way out.  The tests for null are too late to be of use:
`GameCreate` constructs the object where `Allocate` says, null or not.  What is shown is the one text with
an `f` in front that the file can stand for (`winMain_shows`).
-/

namespace Whuctf.PEShellcode

open Scope

/-! ## The game

The functions of the game are not part of the sources, so they are arbitrary: each takes and returns a
state of the game.  What the sources fix is the order of the calls and the objects they are made on. -/

inductive GameClass
  | ramFile | ini | mixFile | ccFile
  deriving DecidableEq, Repr

/-- The sizes that `gamemd.hpp` asserts for its classes, which is what `GameCreate` asks `Allocate`
for. -/
def GameClass.size : GameClass → ℕ
  | ramFile => 0x1E
  | ini => 0x55
  | mixFile => 0x28
  | ccFile => 0x6C

/-- `PKey`, by its bytes. -/
abbrev PKey := Fin 0x204 → Byte

/-- The functions of the game that are called; each may change the state of the game. -/
structure GameFunctions (σ : Type) where
  allocate : ℕ → σ → DWord × σ
  deallocate : DWord → σ → σ
  ramFileClass : DWord → String → ℤ → σ → σ
  iniClass : DWord → σ → σ
  mixFileClass : DWord → String → PKey → σ → σ
  ccFileClass : DWord → String → σ → σ
  destructor : GameClass → DWord → σ → σ
  load : DWord → DWord → Bool → σ → ℤ × σ
  getPKey : DWord → Bool → σ → PKey × σ
  fastKey : σ → PKey
  setFastKey : PKey → σ → σ
  fileExists : DWord → Bool → σ → Bool × σ
  getFileSize : DWord → σ → ℤ × σ
  /-- What is written to the start of the buffer. -/
  readBytes : DWord → ℕ → σ → List Byte × σ
  messageBoxA : List Byte → String → σ → σ

/-- What is called on an object or, the last two, without one. -/
inductive GameCall
  | argument | load | getPKey
  | fileExists (found : Bool)
  | getFileSize (size : ℤ)
  | readBytes (buffer : List Byte)
  | setFastKey
  | messageBoxA (text : List Byte)
  deriving DecidableEq, Repr

/-- What ends the process: a null pointer is followed, a vector gets a size it cannot have, or an empty
one is asked for its first element. -/
inductive Crash
  | nullPointer | lengthError | emptyVector
  deriving DecidableEq, Repr

abbrev Code (σ : Type) := Action σ Crash DWord GameCall

/-! ## The program

`GameCreateUnique` returns a smart pointer, so the object lives to the end of the block it is made in.
This is a scope of `Library/Scope`, and the early returns leave it like any other way out. -/

section Program

variable {σ : Type} (game : GameFunctions σ)

/-- `GameCreate`: memory of the size of the class is asked for and the object constructed there.  A
null pointer is followed by the constructor, which ends the process. -/
def gameCreate (cls : GameClass) (construct : DWord → σ → σ) : Code σ DWord := do
  let ptr ← act (game.allocate cls.size)
  -- `construct` follows `allocate` at once, so there is no test for null before it
  if ptr = 0 then throw .nullPointer
  else do
    act fun s => ((), construct ptr s)
    return ptr

/-- `GameDelete`: the destructor and then the memory, for a pointer that is not null. -/
def gameDelete (cls : GameClass) (ptr : DWord) (s : σ) : σ :=
  if ptr = 0 then s else game.deallocate ptr (game.destructor cls ptr s)

/-- `GameCreateUnique`, for the rest of a block: the object is made, and deleted where the block ends. -/
def gameCreateUnique {α : Type} (cls : GameClass) (construct : DWord → σ → σ)
    (body : DWord → Code σ α) : Code σ α :=
  scope (gameCreate game cls construct) (gameDelete game cls) body

def publicKey : String := "[PublicKey]\n1=AihRvNoIbTn85FZRYNZRcT+i6KpU+maCsEqr3Q5q+LDB5tH7Tz2qQ38V\n\n"

/-- `gh4t_shellcode` up to the place that the attachment leaves open. -/
def openFlag (rest : DWord → Code σ Bool) : Code σ Bool :=
  gameCreateUnique game .ramFile (fun p => game.ramFileClass p publicKey publicKey.length) fun pFile =>
    if pFile = 0 then return false else
    gameCreateUnique game .ini game.iniClass fun pINI =>
      if pINI = 0 then return false else do
      note (.used pFile .argument)
      let _ ← use pINI (fun _ => .load) (game.load pINI pFile false)
      let key ← use pINI (fun _ => .getPKey) (game.getPKey pINI true)
      perform .setFastKey (game.setFastKey key)
      gameCreateUnique game .mixFile (fun p s => game.mixFileClass p "flag.mix" (game.fastKey s) s)
        fun pMixFile =>
          if pMixFile = 0 then return false else
          gameCreateUnique game .ccFile (fun p => game.ccFileClass p "flag.bin") fun pCCFile =>
            if pCCFile = 0 then return false else do
            let found ← use pCCFile .fileExists (game.fileExists pCCFile false)
            if found = false then return false else rest pCCFile

/-- The first `i` below 256 with `(first ^ i) == 'f'`. -/
def findXor (first : Byte) : Option ℕ := (List.range 256).find? fun i => first.toNat ^^^ i = 0x66

/-- What is left of a vector of zeros when its start is overwritten. -/
def fill (size : ℕ) (bytes : List Byte) : List Byte :=
  bytes.take size ++ List.replicate (size - bytes.length) 0

/-- What the solution does with the file: it reads all of it, looks for the byte, and shows the text. -/
def showFlag (pCCFile : DWord) : Code σ Bool := do
  let sz ← use pCCFile .getFileSize (game.getFileSize pCCFile)
  if sz < 0 then throw .lengthError else do
  let buffer ← use pCCFile .readBytes fun s =>
    let (bytes, s) := game.readBytes pCCFile sz.toNat s
    (fill sz.toNat bytes, s)
  match buffer with
  | [] => throw .emptyVector
  | first :: _ =>
      match findXor first with
      | none => return false
      | some i => do
          let text := buffer.map (· ^^^ BitVec.ofNat 8 i) ++ [0]
          perform (.messageBoxA text) (game.messageBoxA text "Result")
          return true

/-- `gh4t_shellcode` of the solution: what the attachment has of it, with the solution's part at the
place left open. -/
def gh4tShellcode : Code σ Bool := openFlag game (showFlag game)

/-- The hook in `WinMain`, which ends the program with zero when the flag has been shown and with one
otherwise. -/
def winMain (R : Registers) : Code σ (DWord × Registers) := do
  if (← gh4tShellcode game) = false then return (0x6BD871#32, { R with eax := 1 })
  else return (0x6BD871#32, { R with eax := 0 })

end Program

/-! ## The byte on every other one -/

/-- The search ends before 256, so what follows it in the source is never reached. -/
lemma findXor_spec (first : Byte) :
    ∃ i, findXor first = some i ∧ first ^^^ BitVec.ofNat 8 i = 0x66 := by
  rw [findXor]
  cases hfind : (List.range 256).find? fun i => first.toNat ^^^ i = 0x66 with
  | none =>
    have hlt : first.toNat ^^^ 0x66 < 2 ^ 8 := Nat.xor_lt_two_pow first.isLt (by omega)
    have hnone := List.find?_eq_none.mp hfind _ (List.mem_range.mpr hlt)
    rw [← Nat.xor_assoc, Nat.xor_self, Nat.zero_xor] at hnone
    exact absurd (decide_eq_true rfl) hnone
  | some i =>
    have hi : i < 2 ^ 8 := List.mem_range.mp (List.mem_of_find?_eq_some hfind)
    have hfound := List.find?_some hfind
    have hxor : first.toNat ^^^ i = 0x66 := of_decide_eq_true hfound
    refine ⟨i, rfl, BitVec.eq_of_toNat_eq ?_⟩
    rw [BitVec.toNat_xor, BitVec.toNat_ofNat, Nat.mod_eq_of_lt hi, hxor]
    rfl

lemma map_xor_map_xor (k : Byte) (bytes : List Byte) :
    (bytes.map (· ^^^ k)).map (· ^^^ k) = bytes := by
  rw [List.map_map]
  apply List.map_id''
  intro b
  show b ^^^ k ^^^ k = b
  rw [BitVec.xor_assoc, BitVec.xor_self, BitVec.xor_zero]

/-- There is one text with a given first byte behind a file. -/
lemma eq_of_map_xor_eq {first k k' : Byte} {text text' : List Byte} (h : text.head? = some first)
    (h' : text'.head? = some first) (heq : text.map (· ^^^ k) = text'.map (· ^^^ k')) :
    text = text' := by
  obtain ⟨rest, rfl⟩ := List.head?_eq_some_iff.mp h
  obtain ⟨rest', rfl⟩ := List.head?_eq_some_iff.mp h'
  rw [List.map_cons, List.map_cons, List.cons.injEq] at heq
  obtain rfl : k = k' := (BitVec.xor_right_inj first).mp heq.1
  have hinjective : Function.Injective (· ^^^ k) := fun a b hab => (BitVec.xor_left_inj k).mp hab
  rw [hinjective.list_map heq.2]

lemma length_fill (size : ℕ) (bytes : List Byte) : (fill size bytes).length = size := by
  rw [fill, List.length_append, List.length_take, List.length_replicate]
  omega

/-! ## The scopes -/

section Scopes

variable {σ : Type} (game : GameFunctions σ) {live : List DWord} {R : Except Crash Bool → List GameCall → Prop}

lemma gameCreate_ensures (cls : GameClass) (construct : DWord → σ → σ) :
    Ensures live live (gameCreate game cls construct) fun result l =>
      l = [] ∧ (∀ p, result = .ok p → p ≠ 0) ∧ ∀ e, result = .error e → e = .nullPointer := by
  rw [gameCreate]
  apply ensures_act_bind
  intro s
  by_cases hptr : (game.allocate cls.size s).1 = 0
  · rw [if_pos hptr]
    exact ensures_throw ⟨rfl, nofun, fun e he => by cases he; rfl⟩
  · rw [if_neg hptr]
    apply ensures_act_bind
    intro _
    exact ensures_pure ⟨rfl, fun p hp => by cases hp; exact hptr, nofun⟩

/-- An object that is made for the rest of a block is not null. -/
lemma gameCreateUnique_ensures {cls : GameClass} {construct : DWord → σ → σ}
    {body : DWord → Code σ Bool} (herror : R (.error .nullPointer) [])
    (hbody : ∀ p, p ≠ 0 → Ensures (p :: live) (p :: live) (body p) R) :
    Ensures live live (gameCreateUnique game cls construct body) R := by
  apply ensures_scope ((gameCreate_ensures game cls construct).mono _) hbody
  rintro result l ⟨hl, hgood, he⟩
  exact ⟨hl, hgood, fun e hresult => he e hresult ▸ herror⟩

/-- The calls that open the file, in the order in which the hook makes them. -/
def opening : List GameCall := [.argument, .load, .getPKey, .setFastKey]

/-- What is called when `rest` returns or crashes as `R` says: it follows when the file is there. -/
def Opened (R : Except Crash Bool → List GameCall → Prop) (result : Except Crash Bool)
    (calls : List GameCall) : Prop :=
  (∃ l, calls = opening ++ .fileExists true :: l ∧ R result l) ∨
    (result = .ok false ∧ calls = opening ++ [.fileExists false]) ∨
    (result = .error .nullPointer ∧ calls <+: opening)

/-- `gh4t_shellcode`, whatever stands at the place that the attachment leaves open. -/
lemma openFlag_ensures {rest : DWord → Code σ Bool}
    (hrest : ∀ p live, p ∈ live → Ensures live live (rest p) R) :
    Ensures live live (openFlag game rest) (Opened R) := by
  have hcrash : ∀ calls, calls <+: opening → Opened R (.error .nullPointer) calls :=
    fun calls hcalls => .inr (.inr ⟨rfl, hcalls⟩)
  apply gameCreateUnique_ensures game (hcrash [] (by decide))
  intro pFile hFile
  rw [if_neg hFile]
  apply gameCreateUnique_ensures game (hcrash [] (by decide))
  intro pINI hINI
  rw [if_neg hINI]
  apply ensures_note_bind (follow_used (by simp) _)
  apply ensures_use_bind (by simp)
  intro _
  apply ensures_use_bind (by simp)
  intro _
  apply ensures_perform_bind
  apply gameCreateUnique_ensures game
  · exact hcrash opening (List.prefix_refl _)
  intro pMixFile hMixFile
  rw [if_neg hMixFile]
  apply gameCreateUnique_ensures game
  · exact hcrash opening (List.prefix_refl _)
  intro pCCFile hCCFile
  rw [if_neg hCCFile]
  apply ensures_use_bind (by simp)
  intro s
  cases (game.fileExists pCCFile false s).1 with
  | false => exact ensures_pure (.inr (.inl ⟨rfl, rfl⟩))
  | true => exact (hrest pCCFile _ List.mem_cons_self).mono fun result l hR => .inl ⟨l, rfl, hR⟩

/-- What the solution calls when the file is there: it shows the file under a mask that makes its first
character an `f`, or it ends without showing anything. -/
def Shown : Except Crash Bool → List GameCall → Prop
  | .error _, calls => ∀ text, .messageBoxA text ∉ calls
  | .ok shown, calls => shown = true ∧ ∃ size buffer text k,
      calls = [.getFileSize size, .readBytes buffer, .messageBoxA (text ++ [0])] ∧
        buffer.length = size ∧ text.head? = some 0x66 ∧ buffer = text.map (· ^^^ k)

lemma showFlag_ensures {p : DWord} (hp : p ∈ live) : Ensures live live (showFlag game p) Shown := by
  rw [showFlag]
  apply ensures_use_bind hp
  intro s
  obtain ⟨size, hsize⟩ : ∃ size, size = (game.getFileSize p s).1 := ⟨_, rfl⟩
  rw [← hsize]
  by_cases hneg : size < 0
  · rw [if_pos hneg]
    exact ensures_throw (by simp [Shown])
  · rw [if_neg hneg]
    apply ensures_use_bind hp
    intro s
    obtain ⟨buffer, hbuffer⟩ : ∃ buffer, buffer = fill size.toNat (game.readBytes p size.toNat s).1 :=
      ⟨_, rfl⟩
    have hlength : (buffer.length : ℤ) = size := by
      rw [hbuffer, length_fill]
      omega
    simp only [← hbuffer]
    cases buffer with
    | nil => exact ensures_throw (by simp [Shown])
    | cons first rest =>
      obtain ⟨i, hi, hfirst⟩ := findXor_spec first
      simp only [hi]
      apply ensures_perform_bind
      apply ensures_pure
      exact ⟨rfl, size, first :: rest, _, BitVec.ofNat 8 i, rfl, hlength, congrArg some hfirst,
        (map_xor_map_xor _ _).symm⟩

end Scopes

/-- What the hook in `WinMain` returns after which calls. -/
def Handled (R : Registers) : Except Crash (DWord × Registers) → List GameCall → Prop
  | .error _, calls => ∀ text, .messageBoxA text ∉ calls
  | .ok (next, R'), calls => next = 0x6BD871#32 ∧
      ((R' = { R with eax := 1 } ∧ calls = opening ++ [.fileExists false]) ∨
        (R' = { R with eax := 0 } ∧ ∃ size buffer text,
          calls = opening ++ [.fileExists true, .getFileSize size, .readBytes buffer,
            .messageBoxA (text ++ [0])] ∧
          buffer.length = size ∧ text.head? = some 0x66 ∧
          ∀ text', text'.head? = some 0x66 → ((∃ k, buffer = text'.map (· ^^^ k)) ↔ text' = text)))

lemma handled_of_shown (R : Registers) {calls : List GameCall} (h : Shown (.ok true) calls) :
    Handled R (.ok (0x6BD871#32, { R with eax := 0 })) (opening ++ .fileExists true :: calls) := by
  obtain ⟨-, size, buffer, text, k, rfl, hlength, hhead, hbuffer⟩ := h
  refine ⟨rfl, .inr ⟨rfl, size, buffer, text, rfl, hlength, hhead, ?_⟩⟩
  intro text' hhead'
  constructor
  · rintro ⟨k', hk'⟩
    exact eq_of_map_xor_eq hhead' hhead (hk'.symm.trans hbuffer)
  · rintro rfl
    exact ⟨k, hbuffer⟩

/-- **The solution.**  Whatever the functions of the game do: every method is called on an object that
lives, and when the hook returns every object has been destroyed, the last one first.  It returns one
without a message when the file is not there; otherwise it returns zero and has shown the text that begins
with an `f` and of which the file is the combination with one byte. -/
theorem winMain_shows {σ : Type} (game : GameFunctions σ) (R : Registers) (s : σ) :
    ∃ result s' trace, (winMain game R).run.run (s, []) = (result, s', trace) ∧
      (∃ live, replay [] trace = some live ∧ ∀ v, result = .ok v → live = []) ∧
      Handled R result (actions trace) := by
  have hflag : Ensures [] [] (gh4tShellcode game) (Opened Shown) :=
    openFlag_ensures game fun p live hp => showFlag_ensures game hp
  have hmain : Ensures [] [] (winMain game R) (Handled R) := by
    apply hflag.bind
    · rintro shown calls (⟨l, rfl, hshown⟩ | ⟨hfalse, rfl⟩ | ⟨hcrash, -⟩)
      · obtain rfl : shown = true := hshown.1
        apply ensures_pure
        rw [List.append_nil]
        exact handled_of_shown R hshown
      · cases hfalse
        exact ensures_pure ⟨rfl, .inl ⟨rfl, rfl⟩⟩
      · cases hcrash
    · rintro e calls (⟨l, rfl, hshown⟩ | ⟨hfalse, -⟩ | ⟨hcrash, hprefix⟩)
      · intro text
        simpa [opening] using hshown text
      · cases hfalse
      · intro text htext
        simpa [opening] using hprefix.subset htext
  exact hmain s []

end Whuctf.PEShellcode
