import Whuctf.Client.FlagSecrecy
import Whuctf.Client.Solution
import Whuctf.Client.Verdict

/-!
# The answer accepts one reply

`code.c` makes the answer of the check-in from a flag, and the key and the answer are then written into
`server.c` and `std.c`.  The four programs work on the same four blocks: `code.c` and the routines in the
client's slots go one way, `std.c` and the server the other way.

A reply is masked before it is looked at, so for a reply of 32 bytes both verdicts compare the blocks of
what was typed with the blocks of the flag, under a mask (`solveWords_generated`, `loadBlock_reply`).

The cipher is a bijection on blocks, so equality of the blocks after it is equality before it; and the
mask is its own inverse.  The flag the sources ship is one instance: their answer is what `code.c`
makes of it (`shippedAnswer_generated`).
-/

namespace Whuctf.Client

open X86 Memory

section Blocks

variable {A : Type*} [AddMonoidWithOne A] [DecidableEq A] {p key : A}
  (hdist : Memory.OffsetsDistinct p 32) (hkey : Memory.Apart p 32 key 16) (m : Memory A)
include hdist hkey

/-- The blocks that `code.c` leaves: each is the masked block of the flag, encrypted in the first half
and decrypted in the second. -/
lemma loadBlock_codeMain (j : Fin 4) :
    loadBlock (Code.main m p key) (blockAt p j) =
      if j.val < 2 then encryptWords (keyAt m key) (maskBlock (loadBlock m (blockAt p j)))
      else decryptWords (keyAt m key) (maskBlock (loadBlock m (blockAt p j))) :=
  (acts_codeMain hdist m hkey).block j

/-- The server's way back from the answer comes to the masked flag. -/
lemma solveWords_generated (j : Fin 4) :
    solveWords (keyAt (object (m.read key 16)) 0) j
        (loadBlock (object ((Code.main m p key).read p 32)) (8 * j.val)) =
      maskBlock (loadBlock m (blockAt p j)) := by
  have hkeys : ∀ i < 4, keyAt (object (m.read key 16)) 0 i = keyAt m key i :=
    keyAt_congr (read_object_self (length_read m key 16))
  have hanswer : loadBlock (object ((Code.main m p key).read p 32)) (8 * j.val) =
      loadBlock (Code.main m p key) (blockAt p j) := by
    have hread : (object ((Code.main m p key).read p 32)).read 0 32 = (Code.main m p key).read p 32 :=
      read_object_self (length_read _ _ _)
    have hblock := read_eq_of_read_eq hread (i := 8 * j.val) (k := 8) (by omega)
    rw [Nat.cast_id, Nat.zero_add] at hblock
    exact loadBlock_congr hblock
  rw [hanswer, loadBlock_codeMain hdist hkey, solveWords_congr hkeys, solveWords]
  by_cases hj : j.val < 2
  · rw [if_pos hj, if_pos hj, decryptWords_encryptWords]
  · rw [if_neg hj, if_neg hj, encryptWords_decryptWords]

/-- `std.c` on the answer that `code.c` has made, under its key, gives back the flag the answer was
made from. -/
lemma stdMain_generated {m' : Memory A} (hanswer : m'.read p 32 = (Code.main m p key).read p 32)
    (hsame : m'.read key 16 = m.read key 16) : (Std.main m' p key).read p 32 = m.read p 32 := by
  apply read_eq_iff_blocks.mpr
  intro j hj
  have hkeys := keyAt_congr hsame
  have hblock : loadBlock m' (blockAt p ⟨j, hj⟩) = loadBlock (Code.main m p key) (blockAt p ⟨j, hj⟩) :=
    loadBlock_congr (read_eq_of_read_eq hanswer (by omega))
  have hstd := (acts_stdMain hdist m' hkey).block ⟨j, hj⟩
  rw [hblock, loadBlock_codeMain hdist hkey, encryptWords_congr hkeys, decryptWords_congr hkeys] at hstd
  refine hstd.trans ?_
  by_cases hlt : j < 2
  · simp only [hlt, if_true, decryptWords_encryptWords, maskBlock_maskBlock]
    rfl
  · simp only [hlt, if_false, encryptWords_decryptWords, maskBlock_maskBlock]
    rfl

end Blocks

/-! ## Replies of 32 bytes

A reply fills the start of `global_data` and leaves the rest as an earlier exchange had it.  The server
masks and compares 32 bytes, so what lies behind them never counts. -/

section Reply

variable (e : Element) {typed : List Byte} (htyped : typed.length = 32)
include htyped

/-- Of such a reply the server looks at the masked bytes, which are those of the flag as `code.c` masks
it. -/
lemma take_maskReply :
    (maskReply (e.overwrite typed)).toList.take 32 = (maskBytes (object typed) 0).read 0 32 := by
  refine List.ext_getElem (by simp) fun i hi _ => ?_
  have hi32 : i < 32 := by
    rw [List.length_take] at hi
    exact (Nat.lt_min.mp hi).1
  have hmask := (maskBytes_apply (offsetsDistinct_nat 0 32) (object typed)).1 i hi32
  have htyped' : i < typed.length := by omega
  rw [getElem_read, hmask, List.getElem_take, Vector.getElem_toList]
  simp [maskReply, Element.getElem_overwrite, object, hi32, htyped']

/-- The blocks of a masked reply: each half of a block of what was typed, with the mask in its four
bytes. -/
lemma loadBlock_reply (j : Fin 4) :
    loadBlock (object (maskReply (e.overwrite typed)).toList) (8 * j.val) =
      maskBlock (loadBlock (object typed) (8 * j.val)) := by
  have hread : (object (maskReply (e.overwrite typed)).toList).read 0 32 =
      (maskBytes (object typed) 0).read 0 32 := by
    rw [← toList_take_eq_read, take_maskReply e htyped]
  have hblock := read_eq_of_read_eq hread (i := 8 * j.val) (k := 8) (by omega)
  have hmask := (acts_maskBytes (offsetsDistinct_nat 0 32) (object typed)).block j
  simp only [blockAt, Nat.cast_id, Nat.zero_add] at hblock hmask
  rw [loadBlock_congr hblock, hmask]

/-- The server accepts the flag that the answer was made from, and no other reply. -/
lemma correct_generated_iff {A : Type*} [AddMonoidWithOne A] [DecidableEq A] {p key : A}
    (hdist : Memory.OffsetsDistinct p 32) (hkey : Memory.Apart p 32 key 16) (m : Memory A) :
    correct (m.read key 16) ((Code.main m p key).read p 32) (maskReply (e.overwrite typed)) = true ↔
      typed = m.read p 32 := by
  have hbytes : typed = m.read p 32 ↔ (object typed).read 0 32 = m.read p 32 := by
    rw [read_object_self htyped]
  rw [correct_iff, hbytes, read_eq_iff_blocks]
  apply forall₂_congr
  intro j hj
  have hsolved := solveWords_generated hdist hkey m ⟨j, hj⟩
  have hreply := loadBlock_reply e htyped ⟨j, hj⟩
  rw [hsolved, hreply, Nat.cast_id, Nat.zero_add, eq_comm]
  have hinjective : Function.Injective maskBlock :=
    Function.LeftInverse.injective maskBlock_maskBlock
  exact hinjective.eq_iff

end Reply

/-- **A flag and its answer.**  Let `code.c` make the answer from a flag of 32 bytes under a key of 16.
Then `std.c` finds the flag from the answer, wherever these two stand; and of all replies of 32 bytes,
whatever stood in the buffer before, the server accepts the flag and no other, and so does slot 13 of the
client. -/
theorem answer_accepts_flag {A : Type*} [AddMonoidWithOne A] [DecidableEq A] {p key : A}
    (hdist : Memory.OffsetsDistinct p 32) (hkey : Memory.Apart p 32 key 16) (m : Memory A)
    (e : Element) {typed : List Byte} (htyped : typed.length = 32) :
    let flag := m.read p 32
    let answer := (Code.main m p key).read p 32
    (∀ m' : Memory A, m'.read p 32 = answer → m'.read key 16 = m.read key 16 →
      (Std.main m' p key).read p 32 = flag) ∧
    (correct (m.read key 16) answer (maskReply (e.overwrite typed)) = true ↔ typed = flag) ∧
    ∀ {img : Image} {elements glob low : BitVec 64} (k : Kernel), Loaded img elements glob →
      Layout elements glob low → ∀ {s : State}, s.reg .rsp = low + 8#64 →
      s.rip = elements + 13#64 * 0x100#64 → s.mem.read (elements + 0x800#64) 16 = m.read key 16 →
      s.mem.read (elements + 0x700#64) 32 = answer →
      s.mem.read glob 256 = (maskReply (e.overwrite typed)).toList →
      ∃ n s', run img k n s = some s' ∧ s'.rip = load64 s.mem (s.reg .rsp) ∧
        s'.reg8 .rax = if typed = flag then 1#8 else 0#8 := by
  intro flag answer
  have hcorrect := correct_generated_iff e htyped hdist hkey m
  refine ⟨fun m' => stdMain_generated hdist hkey m, hcorrect, ?_⟩
  intro img elements glob low k C L s hstack hrip hkeySlot hanswerSlot hglob
  have hprefix : s.mem.read glob 32 = (maskReply (e.overwrite typed)).toList.take 32 := by
    rw [← hglob, show 256 = 32 + 224 from rfl, read_add, List.take_left' (length_read _ _ _)]
  have haccepts := (accepts_iff_correct hkeySlot hanswerSlot hprefix).trans hcorrect
  obtain ⟨n, s', hrun, hback, -, hal⟩ := validation_returns k C L hstack hrip
  refine ⟨n, s', hrun, hback, ?_⟩
  rw [hal]
  by_cases heq : typed = flag
  · rw [if_pos (haccepts.mpr heq), if_pos heq]
  · rw [if_neg (fun h => heq (haccepts.mp h)), if_neg heq]

/-- The flag and the key of `code.c`, one behind the other, as two arrays that do not meet. -/
def shippedArrays : Memory ℕ := object (correctReply ++ shippedKey)

/-- The answer in the sources is what `code.c` makes from its flag. -/
lemma shippedAnswer_generated : (Code.main shippedArrays 0 32).read 0 32 = shippedAnswer := by
  have hdist := offsetsDistinct_nat 0 32
  have hkey : Memory.Apart (0 : ℕ) 32 32 16 := apart_nat (by decide)
  have hanswer : (object shippedAnswer).read 0 32 = shippedAnswer := read_object_self (by decide)
  rw [← hanswer, read_eq_iff_blocks]
  intro j hj
  have hblock := loadBlock_codeMain hdist hkey shippedArrays ⟨j, hj⟩
  simp only [blockAt, Nat.cast_id, Nat.zero_add] at hblock ⊢
  rw [hblock]
  revert j
  decide +kernel

/-- A client about to enter slot 13 with `g` in its buffer. -/
def clientAtValidation (g : Element) : State :=
  { clientAtMain g with rip := 0x100000#64 + 13#64 * 0x100#64 }

lemma clientAtValidation_mem (g : Element) : (clientAtValidation g).mem = clientMemory g := rfl

theorem answer_accepts_flag_shipped : ∃ n s',
    run (assembleSlots 256 0x100000#64 (checkInCode 0x100000#64 0x400000#64))
      ⟨fun _ _ => 0#64, fun _ _ => 0#64, fun _ m => m⟩ n
      (clientAtValidation (maskReply (Element.filler.overwrite correctReply))) = some s' ∧
    s'.rip = load64 (clientAtValidation (maskReply (Element.filler.overwrite correctReply))).mem
      ((clientAtValidation (maskReply (Element.filler.overwrite correctReply))).reg .rsp) ∧
    s'.reg8 .rax = if correctReply = shippedArrays.read 0 32 then 1#8 else 0#8 := by
  have hdist : Memory.OffsetsDistinct (0 : ℕ) 32 := offsetsDistinct_nat 0 32
  have hkey : Memory.Apart (0 : ℕ) 32 32 16 := apart_nat (by decide)
  have hlayout : Layout 0x100000#64 0x400000#64 0x7fffe8#64 := by
    constructor <;> exact (apart_of_le (by decide) (by decide)).symm
  have hlength : correctReply.length = 32 := rfl
  have hkeys : shippedKey = shippedArrays.read 32 16 := by
    rw [shippedArrays, read_object (by decide)]
    rfl
  refine (answer_accepts_flag hdist hkey shippedArrays Element.filler hlength).2.2 _ loadedCheckIn
    hlayout rfl rfl ?_ ?_ ?_
  · rw [clientAtValidation_mem, clientMemory_key, hkeys]
  · rw [clientAtValidation_mem, clientMemory_answer, shippedAnswer_generated]
  · rw [clientAtValidation_mem, clientMemory_glob]

end Whuctf.Client
