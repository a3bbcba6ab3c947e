import Mathlib.Tactic.IntervalCases
import Whuctf.Client.Cipher
import Whuctf.Client.Element

/-!
# The server's verdict

`run_validation` of `server.c` asks the client for 32 bytes (`OPT_EXEC 10`), takes the 256-byte
echo as `global_data`, masks its first 32 bytes with `0x1F` (`maskReply`), runs the answer
through the inverse of what the client computes, the first two blocks decrypted and the last
two encrypted (`solvedAnswer`), and compares (`correct`).  The key and the answer are the
constants of the source; here they are parameters, and `shippedKey` and `shippedAnswer` are the
values the server uses.

`correct_iff` is the verdict block by block: each masked block of the reply is what the
inverse cipher makes of the block of the answer.

The arrays of the source are locals and string constants, so each is an object of its own, at address 0
of its own memory.  The cipher is `myencrypt` and `mydecrypt` of `Cipher`, over addresses that are
plain numbers.
-/

namespace Whuctf.Client

/-- A C array as an object of its own, at address 0. -/
def object (bs : List Byte) : Memory ℕ := fun i => bs.getD i 0

/-- The key of `run_validation`, sixteen characters, which is also the string it writes into slot 8. -/
def shippedKey : List Byte :=
  [0x4c, 0x61, 0x62, 0x5f, 0x53, 0x69, 0x67, 0x6e, 0x5f, 0x31, 0x4e, 0x5f, 0x4b, 0x65, 0x79, 0x40]

/-- The answer of `run_validation`, thirty-two bytes, which is also what it writes into slot 7. -/
def shippedAnswer : List Byte :=
  [ 0xd4, 0xe5, 0xbd, 0x70, 0x09, 0x20, 0xd2, 0xa3,
    0x33, 0xbb, 0xb2, 0x7d, 0x47, 0x1b, 0xee, 0x74,
    0x1c, 0xe4, 0x8b, 0x66, 0x15, 0xf5, 0x6e, 0xf2,
    0x24, 0xbf, 0x39, 0xad, 0x62, 0x88, 0xb9, 0x71 ]

/-- `global_data.Data[i] ^= 0x1F` for the first 32 bytes; the others stay as the client sent them. -/
def maskReply (g : Element) : Element :=
  g.mapIdx fun i b => if i < 32 then b ^^^ 0x1F#8 else b

/-- The local `answer` after the four calls of the cipher: its first two blocks decrypted, its last two
encrypted, each in place. -/
def solvedAnswer (key answer : List Byte) : Memory ℕ :=
  let k := object key
  let m := mydecrypt (object answer) 0 k 0
  let m := mydecrypt m 8 k 0
  let m := myencrypt m 16 k 0
  myencrypt m 24 k 0

/-- `correct`: `memcmp` finds the 32 bytes equal, those of the masked reply and those of the local
`answer`. -/
def correct (key answer : List Byte) (g : Element) : Bool :=
  (solvedAnswer key answer).read 0 32 == g.toList.take 32

/-! ## Block by block

The 32 bytes are four blocks of two words, and the two directions of the cipher act on one block each.
`correct`, a comparison of bytes, is therefore four equations between blocks. -/

lemma offsetsDistinct_nat (a n : ℕ) : Memory.OffsetsDistinct a n := by
  intro i _ j _ h
  simpa using h

lemma apart_nat {a b n k : ℕ} (h : a + n ≤ b ∨ b + k ≤ a) : Memory.Apart a n b k := by
  intro i hi j hj heq
  simp only [Nat.cast_id] at heq
  omega

lemma read_object {bs : List Byte} {i n : ℕ} (h : i + n ≤ bs.length) :
    (object bs).read i n = (bs.drop i).take n := by
  refine List.ext_getElem (by simp; omega) fun j h₁ h₂ => ?_
  have hj : i + j < bs.length := by
    rw [Memory.length_read] at h₁
    omega
  simp [object, hj]

/-- Thirty-two bytes agree when their four blocks do, whatever memories they are in. -/
lemma read_eq_iff_blocks {A B : Type*} [AddMonoidWithOne A] [AddMonoidWithOne B]
    {m : Memory A} {m' : Memory B} {a : A} {b : B} :
    m.read a 32 = m'.read b 32 ↔
      ∀ j < 4, loadBlock m (a + ((8 * j : ℕ) : A)) = loadBlock m' (b + ((8 * j : ℕ) : B)) := by
  constructor
  · intro h j hj
    exact loadBlock_congr (Memory.read_eq_of_read_eq h (by omega))
  · intro h
    have hblock : ∀ j < 4,
        m.read (a + ((8 * j : ℕ) : A)) 8 = m'.read (b + ((8 * j : ℕ) : B)) 8 := by
      intro j hj
      rw [← blockBytes_loadBlock, ← blockBytes_loadBlock, h j hj]
    refine List.ext_getElem (by simp) fun i h₁ h₂ => ?_
    have hi : i < 32 := by simpa using h₁
    have hget := congrArg (·[i % 8]?) (hblock (i / 8) (by omega))
    simp only [List.getElem?_eq_getElem, Memory.length_read, Nat.mod_lt i (by decide : 0 < 8),
      Memory.getElem_read, Option.some.injEq, add_assoc, ← Nat.cast_add, Nat.div_add_mod] at hget
    rw [Memory.getElem_read, Memory.getElem_read, hget]

lemma read_object_self {bs : List Byte} {n : ℕ} (h : bs.length = n) : (object bs).read 0 n = bs := by
  rw [read_object (by omega), List.drop_zero, ← h, List.take_length]

/-- The cipher the server runs on block `j` of the answer, the inverse of the client's: decryption on
the first two blocks, encryption on the others. -/
def solveWords (key : ℕ → BitVec 32) (j : ℕ) : BitVec 32 × BitVec 32 → BitVec 32 × BitVec 32 :=
  if j < 2 then decryptWords key else encryptWords key

lemma loadBlock_storeBlock_self_nat (m : Memory ℕ) (v : ℕ) (x : BitVec 32 × BitVec 32) :
    loadBlock (storeBlock m v x) v = x :=
  loadBlock_storeBlock_self m v x (offsetsDistinct_nat v 8)

lemma loadBlock_storeBlock_of_ne (m : Memory ℕ) (v w : ℕ) (x : BitVec 32 × BitVec 32)
    (h : v + 8 ≤ w ∨ w + 8 ≤ v) : loadBlock (storeBlock m v x) w = loadBlock m w :=
  loadBlock_congr (read_storeBlock_of_apart m v w x (apart_nat h))

lemma loadBlock_solvedAnswer (key answer : List Byte) {j : ℕ} (hj : j < 4) :
    loadBlock (solvedAnswer key answer) (8 * j) =
      solveWords (keyAt (object key) 0) j (loadBlock (object answer) (8 * j)) := by
  unfold solvedAnswer myencrypt mydecrypt solveWords
  interval_cases j
  all_goals
    simp (disch := omega) only [loadBlock_storeBlock_self_nat, loadBlock_storeBlock_of_ne,
      Nat.mul_zero, Nat.mul_one, Nat.reduceMul, Nat.reduceLT, if_true, if_false]

lemma toList_take_eq_read (g : Element) : g.toList.take 32 = (object g.toList).read 0 32 := by
  rw [read_object (by simp)]
  rfl

/-- The verdict, block by block: each block of the answer, under the cipher for its place, is the block
of the element at the same place. -/
lemma correct_iff (key answer : List Byte) (g : Element) :
    correct key answer g = true ↔
      ∀ j < 4, solveWords (keyAt (object key) 0) j (loadBlock (object answer) (8 * j)) =
        loadBlock (object g.toList) (8 * j) := by
  rw [correct, beq_iff_eq, toList_take_eq_read, read_eq_iff_blocks]
  apply forall₂_congr
  intro j hj
  rw [Nat.cast_id, Nat.zero_add, loadBlock_solvedAnswer key answer hj]

end Whuctf.Client
