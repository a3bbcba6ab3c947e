import Whuctf.Library.Ownership
import Whuctf.PEShellcode.Session

/-!
# The engines behind the hooks

`task.cpp` hooks five functions of the game.  An object of the game holds a pointer only: the hook of the
constructor allocates an engine with the memory of the game, that of the destructor frees it, and the
others call the engine behind the pointer with the arguments on the stack.

To the game the hooks are a class of its own, as long as it constructs an object before it uses it and
destroys it once: every object has an engine to itself, each call returns what this engine returns, no
hook follows a pointer that is not to an engine, and the engines in memory are those of the objects that
live (`hooks_simulate`).
-/

namespace Whuctf.PEShellcode

open BlowfishEngine

/-! ## The hooks

A hook reads its arguments from the registers and the stack of the hooked function, and returns the
address at which the game goes on.  It fails when it follows a pointer to something that is not an
engine, and when there is no memory for one. -/

abbrev DWord := BitVec 32

/-- What a hook gets: registers, and `R->Stack(offset)`, by which it finds its arguments. -/
structure Registers where
  eax : DWord
  ecx : DWord
  stack : ℕ → DWord

/-- The memory of the caller, the pointer in each object, and the engines that are allocated. -/
structure Game where
  mem : Memory ℕ
  pointer : DWord → DWord
  heap : DWord → Option BlowfishEngine

/-- What can go wrong in a hook: there is no memory for an engine, or the pointer is not to one. -/
inductive Fault
  | outOfMemory | invalidPointer
  deriving DecidableEq, Repr

/-- A hook: where the game goes on, and with which registers. -/
abbrev Hook := Registers → Game → Except Fault (DWord × Registers × Game)

/-- `YRMemory::Allocate`, for an engine: a free address, or none when memory is short. -/
abbrev Allocator := (DWord → Option BlowfishEngine) → Option DWord

/-- `*pThis`, to be dereferenced: the engine behind the pointer of the object in `ECX`, or the fault. -/
def engineOf (R : Registers) (game : Game) : Except Fault BlowfishEngine :=
  match game.heap (game.pointer R.ecx) with
  | some engine => .ok engine
  | none => .error .invalidPointer

def blowfishEngineCtor (allocate : Allocator) : Hook := fun R game =>
  match allocate game.heap with
  | none => .error .outOfMemory
  | some ptr => .ok (0x437FBD#32, { R with eax := R.ecx },
      { game with
        pointer := Function.update game.pointer R.ecx ptr
        heap := Function.update game.heap ptr (some init) })

def blowfishEngineDtor : Hook := fun R game =>
  let ptr := game.pointer R.ecx
  if ptr = 0 then .ok (0x437FCC#32, R, game)
  else do
    -- `~BlowfishEngine` resets the tables of what is freed
    let _ ← engineOf R game
    return (0x437FCC#32, R, { game with heap := Function.update game.heap ptr none })

def blowfishObjectSubmitKey : Hook := fun R game => do
  let engine ← engineOf R game
  let engine := engine.submitKey game.mem (R.stack 4).toNat (R.stack 8).toInt
  return (0x437FF5#32, R,
    { game with heap := Function.update game.heap (game.pointer R.ecx) (some engine) })

def blowfishEngineEncrypt : Hook := fun R game => do
  let engine ← engineOf R game
  let (result, mem) :=
    engine.encrypt game.mem (R.stack 4).toNat (R.stack 8).toInt (R.stack 0xC).toNat
  return (0x43802C#32, { R with eax := BitVec.ofInt 32 result }, { game with mem := mem })

def blowfishEngineDecrypt : Hook := fun R game => do
  let engine ← engineOf R game
  let (result, mem) :=
    engine.decrypt game.mem (R.stack 4).toNat (R.stack 8).toInt (R.stack 0xC).toNat
  return (0x43805C#32, { R with eax := BitVec.ofInt 32 result }, { game with mem := mem })

/-! ## The class -/

inductive Method
  | construct | destroy | submitKey | encrypt | decrypt
  deriving DecidableEq, Repr

/-- The hook of a function of the class, as `task.cpp` declares it for its address. -/
def Method.hook (allocate : Allocator) : Method → Hook
  | construct => blowfishEngineCtor allocate
  | destroy => blowfishEngineDtor
  | submitKey => blowfishObjectSubmitKey
  | encrypt => blowfishEngineEncrypt
  | decrypt => blowfishEngineDecrypt

/-- The objects that live, each with an engine of its own. -/
structure Objects where
  mem : Memory ℕ
  engine : DWord → Option BlowfishEngine

/-- A call on the object in `ECX`, with what is in `EAX` behind it.  An object is constructed when it
does not live, and used and destroyed while it lives. -/
def Objects.call (objects : Objects) (R : Registers) : Method → Option (DWord × Objects)
  | .construct => match objects.engine R.ecx with
      | some _ => none
      | none => some (R.ecx,
          { objects with engine := Function.update objects.engine R.ecx (some init) })
  | .destroy => (objects.engine R.ecx).map fun _ =>
      (R.eax, { objects with engine := Function.update objects.engine R.ecx none })
  | .submitKey => (objects.engine R.ecx).map fun e =>
      (R.eax, { objects with
        engine := Function.update objects.engine R.ecx
          (some (e.submitKey objects.mem (R.stack 4).toNat (R.stack 8).toInt)) })
  | .encrypt => (objects.engine R.ecx).map fun e =>
      let (result, mem) :=
        e.encrypt objects.mem (R.stack 4).toNat (R.stack 8).toInt (R.stack 0xC).toNat
      (BitVec.ofInt 32 result, { objects with mem := mem })
  | .decrypt => (objects.engine R.ecx).map fun e =>
      let (result, mem) :=
        e.decrypt objects.mem (R.stack 4).toNat (R.stack 8).toInt (R.stack 0xC).toNat
      (BitVec.ofInt 32 result, { objects with mem := mem })

/-- A call, or a change that the game makes to its own memory. -/
inductive GameEvent
  | call (method : Method) (R : Registers)
  | rewrite (mem : Memory ℕ)

/-- The calls of a game with the hooks, with what each leaves in `EAX`. -/
def Game.run (allocate : Allocator) (game : Game) : List GameEvent → Except Fault (List DWord × Game)
  | [] => .ok ([], game)
  | .rewrite mem :: events => Game.run allocate { game with mem := mem } events
  | .call method R :: events => do
      let (_, R', game) ← method.hook allocate R game
      let (results, game) ← Game.run allocate game events
      return (R'.eax :: results, game)

/-- The calls on objects of a class, in order, with what each of them returns. -/
def Objects.run (objects : Objects) : List GameEvent → Option (List DWord × Objects)
  | [] => some ([], objects)
  | .rewrite mem :: events => Objects.run { objects with mem := mem } events
  | .call method R :: events => do
      let (result, objects) ← objects.call R method
      let (results, objects) ← Objects.run objects events
      return (result :: results, objects)

/-! ## Simulation

The relation between the two is that of values behind pointers (`Library/Ownership`).  A call is a
change at one object on the side of the class, and the hook makes it at the pointer of that object. -/

/-- Memory that is allocated is not null and was free. -/
def Allocator.Fresh (allocate : Allocator) : Prop :=
  ∀ heap ptr, allocate heap = some ptr → ptr ≠ 0 ∧ heap ptr = none

/-- Every object that lives has an engine to itself behind its pointer, and there are no others. -/
structure Represents (game : Game) (objects : Objects) : Prop where
  mem : game.mem = objects.mem
  owns : Owns game.pointer game.heap objects.engine
  not_null : ∀ this e, objects.engine this = some e → game.pointer this ≠ 0

section Simulation

variable {allocate : Allocator} {game : Game} {objects : Objects} {R : Registers}

lemma Represents.engineOf_eq (h : Represents game objects) {e : BlowfishEngine}
    (hlive : objects.engine R.ecx = some e) : engineOf R game = .ok e := by
  rw [engineOf, h.owns.live R.ecx e hlive]

/-- The memory of the caller changes, which no engine is kept in. -/
lemma Represents.rewrite (h : Represents game objects) (mem : Memory ℕ) :
    Represents { game with mem := mem } { objects with mem := mem } :=
  ⟨rfl, h.owns, h.not_null⟩

/-- An object is constructed where memory is free: its pointer is the new place, and the engine there a
new one. -/
lemma Represents.construct (h : Represents game objects) (hdead : objects.engine R.ecx = none)
    {ptr : DWord} (hnull : ptr ≠ 0) (hfree : game.heap ptr = none) :
    Represents
      { game with
        pointer := Function.update game.pointer R.ecx ptr
        heap := Function.update game.heap ptr (some init) }
      { objects with engine := Function.update objects.engine R.ecx (some init) } := by
  refine ⟨h.mem, h.owns.insert hdead hfree init, ?_⟩
  intro this e hlive
  show Function.update game.pointer R.ecx ptr this ≠ 0
  by_cases hthis : this = R.ecx
  · rw [hthis, Function.update_self]
    exact hnull
  · rw [Function.update_of_ne hthis]
    exact h.not_null this e ((Function.update_of_ne hthis _ _).symm.trans hlive)

/-- The engine of an object that lives is changed, or freed. -/
lemma Represents.update (h : Represents game objects) {e : BlowfishEngine}
    (hlive : objects.engine R.ecx = some e) (change : Option BlowfishEngine) :
    Represents { game with heap := Function.update game.heap (game.pointer R.ecx) change }
      { objects with engine := Function.update objects.engine R.ecx change } := by
  refine ⟨h.mem, ?_, ?_⟩
  · cases change with
    | none => exact h.owns.erase hlive
    | some e' => exact h.owns.update hlive e'
  · intro this f hf
    by_cases hthis : this = R.ecx
    · rw [hthis]
      exact h.not_null R.ecx e hlive
    · exact h.not_null this f ((Function.update_of_ne hthis _ _).symm.trans hf)

/-- **One call.**  The hook returns what the class returns, unless there is no memory for an engine. -/
lemma hook_simulates (hfresh : allocate.Fresh) (h : Represents game objects) {method : Method}
    {result : DWord} {objects' : Objects} (hcall : objects.call R method = some (result, objects')) :
    method.hook allocate R game = .error .outOfMemory ∨
      ∃ next R' game', method.hook allocate R game = .ok (next, R', game') ∧ R'.eax = result ∧
        Represents game' objects' := by
  cases hengine : objects.engine R.ecx with
  | none =>
      cases method with
      | construct =>
          simp only [Objects.call, hengine, Option.some.injEq, Prod.mk.injEq] at hcall
          obtain ⟨rfl, rfl⟩ := hcall
          rw [Method.hook, blowfishEngineCtor]
          cases hptr : allocate game.heap with
          | none => exact .inl rfl
          | some ptr =>
              obtain ⟨hnull, hfree⟩ := hfresh game.heap ptr hptr
              exact .inr ⟨_, _, _, rfl, rfl, h.construct hengine hnull hfree⟩
      | _ => simp [Objects.call, hengine] at hcall
  | some e =>
      right
      have hof := h.engineOf_eq hengine
      cases method with
      | construct => simp [Objects.call, hengine] at hcall
      | destroy =>
          simp only [Objects.call, hengine, Option.map_some, Option.some.injEq, Prod.mk.injEq] at hcall
          obtain ⟨rfl, rfl⟩ := hcall
          rw [Method.hook, blowfishEngineDtor, hof]
          simp only [if_neg (h.not_null R.ecx e hengine)]
          exact ⟨_, _, _, rfl, rfl, h.update hengine none⟩
      | submitKey =>
          simp only [Objects.call, hengine, Option.map_some, Option.some.injEq, Prod.mk.injEq] at hcall
          obtain ⟨rfl, rfl⟩ := hcall
          have hsame : e.submitKey objects.mem (R.stack 4).toNat (R.stack 8).toInt =
              e.submitKey game.mem (R.stack 4).toNat (R.stack 8).toInt := by rw [h.mem]
          rw [Method.hook, blowfishObjectSubmitKey, hof, hsame]
          exact ⟨_, _, _, rfl, rfl, h.update hengine _⟩
      | encrypt =>
          simp only [Objects.call, hengine, Option.map_some, Option.some.injEq, Prod.mk.injEq] at hcall
          obtain ⟨rfl, rfl⟩ := hcall
          rw [Method.hook, blowfishEngineEncrypt, hof, ← h.mem]
          exact ⟨_, _, _, rfl, rfl, h.rewrite _⟩
      | decrypt =>
          simp only [Objects.call, hengine, Option.map_some, Option.some.injEq, Prod.mk.injEq] at hcall
          obtain ⟨rfl, rfl⟩ := hcall
          rw [Method.hook, blowfishEngineDecrypt, hof, ← h.mem]
          exact ⟨_, _, _, rfl, rfl, h.rewrite _⟩

/-- **The hooks are a class.**  On calls that construct an object before they use it and destroy it
once, a game with the hooks either finds no memory for an engine, or gets from every call what the class
returns, with the same memory; and when no object lives there are no engines left. -/
theorem hooks_simulate (hfresh : allocate.Fresh) (h : Represents game objects)
    {events : List GameEvent} {results : List DWord} {objects' : Objects}
    (hrun : objects.run events = some (results, objects')) :
    game.run allocate events = .error .outOfMemory ∨
      ∃ game', game.run allocate events = .ok (results, game') ∧ game'.mem = objects'.mem ∧
        ((∀ this, objects'.engine this = none) → ∀ ptr, game'.heap ptr = none) := by
  induction events generalizing game objects results with
  | nil =>
      simp only [Objects.run, Option.some.injEq, Prod.mk.injEq] at hrun
      obtain ⟨rfl, rfl⟩ := hrun
      exact .inr ⟨game, rfl, h.mem, h.owns.heap_eq_none⟩
  | cons event events ih =>
      cases event with
      | rewrite mem => exact ih (h.rewrite mem) hrun
      | call method R =>
          rw [Objects.run] at hrun
          obtain ⟨⟨result, between⟩, hcall, hrest⟩ := Option.bind_eq_some_iff.mp hrun
          obtain ⟨⟨later, last⟩, hlater, hpure⟩ := Option.bind_eq_some_iff.mp hrest
          cases hpure
          rw [Game.run]
          rcases hook_simulates hfresh h hcall with hfault | ⟨next, R', game', hhook, rfl, hbetween⟩
          · rw [hfault]
            exact .inl rfl
          · rw [hhook]
            rcases ih hbetween hlater with hfault | ⟨game'', hgame, hmem, hempty⟩
            · left
              show (game'.run allocate events >>= _) = _
              rw [hfault]
              rfl
            · right
              refine ⟨game'', ?_, hmem, hempty⟩
              show (game'.run allocate events >>= _) = _
              rw [hgame]
              rfl

/-- A game before its first call, without an engine. -/
def Game.start (mem : Memory ℕ) : Game := ⟨mem, fun _ => 0, fun _ => none⟩

/-- No object lives, whatever is in the memory of the caller. -/
def Objects.start (mem : Memory ℕ) : Objects := ⟨mem, fun _ => none⟩

lemma start_represents (mem : Memory ℕ) : Represents (Game.start mem) (Objects.start mem) where
  mem := rfl
  owns := ⟨nofun, nofun, nofun⟩
  not_null := nofun

/-- One engine at a time fits into memory: a second allocation fails until the first is freed. -/
def oneEngine : Allocator := fun heap => if (heap 16#32).isSome then none else some 16#32

lemma oneEngine_fresh : oneEngine.Fresh := by
  intro heap ptr hptr
  rw [oneEngine] at hptr
  split_ifs at hptr with hheap
  cases hptr
  exact ⟨by decide, Option.not_isSome_iff_eq_none.mp hheap⟩

/-- An object with a key of four bytes, and its end. -/
theorem hooks_simulate_object :
    let R : Registers := ⟨0, 64, fun offset => if offset = 4 then 128 else if offset = 8 then 4 else 0⟩
    let events := [GameEvent.call .construct R, .call .submitKey R, .call .destroy R]
    (Game.start (BitVec.ofNat 8)).run oneEngine events = .error .outOfMemory ∨
      ∃ game', (Game.start (BitVec.ofNat 8)).run oneEngine events = .ok ([64, 0, 0], game') ∧
        game'.mem = BitVec.ofNat 8 ∧ ∀ ptr, game'.heap ptr = none := by
  intro R events
  have hcalls : ∃ objects', (Objects.start (BitVec.ofNat 8)).run events = some ([64, 0, 0], objects') ∧
      objects'.mem = BitVec.ofNat 8 ∧ ∀ this, objects'.engine this = none := by
    refine ⟨_, rfl, rfl, ?_⟩
    intro this
    simp only [Objects.start]
    by_cases hthis : this = R.ecx
    · rw [hthis, Function.update_self]
    · rw [Function.update_of_ne hthis, Function.update_of_ne hthis, Function.update_of_ne hthis]
  obtain ⟨objects', hrun, hmem, hnone⟩ := hcalls
  rcases hooks_simulate oneEngine_fresh (start_represents _) hrun with hfault | hgame
  · exact .inl hfault
  · obtain ⟨game', hgame, hsame, hempty⟩ := hgame
    exact .inr ⟨game', hgame, hsame.trans hmem, hempty hnone⟩

end Simulation

end Whuctf.PEShellcode
