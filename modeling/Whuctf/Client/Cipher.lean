import Mathlib.Logic.Function.Iterate
import Whuctf.Library.Word32

/-!
# The block cipher of the check-in client

`myencrypt` and `mydecrypt` of `server.c`: a 64-bit block of two `uint32_t` and a key of four,
thirty-two rounds, the key word of each half-round chosen by the running `sum`.  Additions
wrap at 32 bits, as `BitVec 32` addition does.

The loops are iterates of one round on the triple `(v0, v1, sum)`.  A decryption round undoes
an encryption round on the whole triple (`decryptRound_encryptRound` and its converse), so the
two loops cancel as soon as `decrypt` starts from the `sum` at which `encrypt` stops.

The functions work on C pointers: `myencrypt m v km k` is the memory of the block after the
call, with the block at `v` in `m` and the key at `k` in `km`.  Server-side arrays are objects
of their own; on the client both lie in one memory.
-/

namespace Whuctf.Client

/-! ## One round

A round is two half-rounds.  Each changes one half of the block by a value that depends on the other
half, the sum and one word of the key, so it is undone by subtracting that value again. -/

/-- What the loops carry: the two halves of the block and the running key index. -/
@[ext]
structure Rounds where
  v0 : BitVec 32
  v1 : BitVec 32
  sum : BitVec 32
  deriving DecidableEq

/-- `delta`, the constant by which the sum grows in every round. -/
def delta : BitVec 32 := 0x9E3779B9#32

/-- `((v << 4) ^ (v >> 5)) + v`, the part of a half-round that depends on the other half of the block
only. -/
def mix (v : BitVec 32) : BitVec 32 := ((v <<< 4) ^^^ (v >>> 5)) + v

/-- The body of the loop of `myencrypt`: the first half, then the sum, then the second half, with the
key word of each chosen by the sum at that moment. -/
def encryptRound (key : ℕ → BitVec 32) (s : Rounds) : Rounds :=
  let v0 := s.v0 + (mix s.v1 ^^^ (s.sum + key (s.sum &&& 3).toNat))
  let sum := s.sum + delta
  let v1 := s.v1 + (mix v0 ^^^ (sum + key ((sum >>> 11) &&& 3).toNat))
  { v0, v1, sum }

/-- The body of the loop of `mydecrypt`: the same two half-rounds in the other order, with subtraction
for addition. -/
def decryptRound (key : ℕ → BitVec 32) (s : Rounds) : Rounds :=
  let v1 := s.v1 - (mix s.v0 ^^^ (s.sum + key ((s.sum >>> 11) &&& 3).toNat))
  let sum := s.sum - delta
  let v0 := s.v0 - (mix v1 ^^^ (sum + key (sum &&& 3).toNat))
  { v0, v1, sum }

lemma decryptRound_encryptRound (key : ℕ → BitVec 32) :
    Function.LeftInverse (decryptRound key) (encryptRound key) := by
  intro s
  simp only [decryptRound, encryptRound, BitVec.add_sub_cancel]

lemma encryptRound_decryptRound (key : ℕ → BitVec 32) :
    Function.LeftInverse (encryptRound key) (decryptRound key) := by
  intro s
  simp only [decryptRound, encryptRound, BitVec.sub_add_cancel]

lemma encryptRound_iterate_sum (key : ℕ → BitVec 32) (n : ℕ) (s : Rounds) :
    ((encryptRound key)^[n] s).sum = s.sum + BitVec.ofNat 32 n * delta := by
  induction n with
  | zero => simp
  | succ n ih =>
      rw [Function.iterate_succ_apply', encryptRound]
      simp only [ih, BitVec.ofNat_add, BitVec.add_mul, BitVec.one_mul, BitVec.add_assoc]

lemma decryptRound_iterate_sum (key : ℕ → BitVec 32) (n : ℕ) (s : Rounds) :
    ((decryptRound key)^[n] s).sum = s.sum - BitVec.ofNat 32 n * delta := by
  induction n with
  | zero => simp
  | succ n ih =>
      rw [Function.iterate_succ_apply', decryptRound]
      simp only [ih, BitVec.ofNat_add, BitVec.add_mul, BitVec.one_mul, sub_sub]

/-! ## The loops on a pair of words -/

/-- The two words `myencrypt` leaves in `v`, after thirty-two rounds from a sum of zero. -/
def encryptWords (key : ℕ → BitVec 32) (v : BitVec 32 × BitVec 32) : BitVec 32 × BitVec 32 :=
  let s := (encryptRound key)^[32] { v0 := v.1, v1 := v.2, sum := 0 }
  (s.v0, s.v1)

/-- The two words `mydecrypt` leaves in `v`, after thirty-two rounds from the last sum of `myencrypt`. -/
def decryptWords (key : ℕ → BitVec 32) (v : BitVec 32 × BitVec 32) : BitVec 32 × BitVec 32 :=
  let s := (decryptRound key)^[32] { v0 := v.1, v1 := v.2, sum := delta * 32#32 }
  (s.v0, s.v1)

/-- `decrypt` starts from the sum at which `encrypt` stops, which is why it can undo the rounds in
reverse order. -/
lemma encryptRound_iterate_final (key : ℕ → BitVec 32) (v : BitVec 32 × BitVec 32) :
    (encryptRound key)^[32] { v0 := v.1, v1 := v.2, sum := 0 } =
      { v0 := (encryptWords key v).1, v1 := (encryptWords key v).2, sum := delta * 32#32 } := by
  have hsum := encryptRound_iterate_sum key 32 { v0 := v.1, v1 := v.2, sum := 0 }
  exact Rounds.ext rfl rfl (hsum.trans (by simp only; decide))

lemma decryptRound_iterate_final (key : ℕ → BitVec 32) (v : BitVec 32 × BitVec 32) :
    (decryptRound key)^[32] { v0 := v.1, v1 := v.2, sum := delta * 32#32 } =
      { v0 := (decryptWords key v).1, v1 := (decryptWords key v).2, sum := 0 } := by
  have hsum := decryptRound_iterate_sum key 32 { v0 := v.1, v1 := v.2, sum := delta * 32#32 }
  exact Rounds.ext rfl rfl (hsum.trans (by simp only; decide))

/-- Decryption undoes encryption on every block, under every key. -/
lemma decryptWords_encryptWords (key : ℕ → BitVec 32) (v : BitVec 32 × BitVec 32) :
    decryptWords key (encryptWords key v) = v := by
  have hback := (decryptRound_encryptRound key).iterate 32 { v0 := v.1, v1 := v.2, sum := 0 }
  rw [encryptRound_iterate_final] at hback
  rw [decryptWords, hback]

/-- Encryption undoes decryption on every block, under every key. -/
lemma encryptWords_decryptWords (key : ℕ → BitVec 32) (v : BitVec 32 × BitVec 32) :
    encryptWords key (decryptWords key v) = v := by
  have hback := (encryptRound_decryptRound key).iterate 32
    { v0 := v.1, v1 := v.2, sum := delta * 32#32 }
  rw [decryptRound_iterate_final] at hback
  rw [encryptWords, hback]

/-- The loops read the four key words only, so keys that agree on these make the same rounds. -/
lemma encryptRound_congr {key key' : ℕ → BitVec 32} (h : ∀ i < 4, key i = key' i) :
    encryptRound key = encryptRound key' := by
  have hmask : ∀ x : BitVec 32, (x &&& 3).toNat < 4 := by
    intro x
    rw [BitVec.toNat_and]
    exact Nat.lt_of_le_of_lt Nat.and_le_right (by decide)
  funext s
  simp only [encryptRound, h _ (hmask _)]

lemma decryptRound_congr {key key' : ℕ → BitVec 32} (h : ∀ i < 4, key i = key' i) :
    decryptRound key = decryptRound key' := by
  have hmask : ∀ x : BitVec 32, (x &&& 3).toNat < 4 := by
    intro x
    rw [BitVec.toNat_and]
    exact Nat.lt_of_le_of_lt Nat.and_le_right (by decide)
  funext s
  simp only [decryptRound, h _ (hmask _)]

lemma encryptWords_congr {key key' : ℕ → BitVec 32} (h : ∀ i < 4, key i = key' i) :
    encryptWords key = encryptWords key' := by
  funext v
  rw [encryptWords, encryptWords, encryptRound_congr h]

lemma decryptWords_congr {key key' : ℕ → BitVec 32} (h : ∀ i < 4, key i = key' i) :
    decryptWords key = decryptWords key' := by
  funext v
  rw [decryptWords, decryptWords, decryptRound_congr h]

/-! ## The functions on pointers

A block is eight bytes at an address and a word is four, the lowest first.  The key has an address and
a memory of its own, since on the server it is a different array. -/

section Pointers

variable {A B : Type*} [AddMonoidWithOne A] [AddMonoidWithOne B]

/-- The two `uint32_t` at a pointer, as `v[0]` and `v[1]` read them. -/
def loadBlock (m : Memory A) (v : A) : BitVec 32 × BitVec 32 :=
  (m.load32 v, m.load32 (v + (4 : ℕ)))

/-- `key[i]` for a `uint32_t` pointer: the four bytes at `key + 4 * i`. -/
def keyAt (m : Memory B) (key : B) (i : ℕ) : BitVec 32 :=
  m.load32 (key + ((4 * i : ℕ) : B))

/-- The bytes of a block in memory: two words, each with its lowest byte first. -/
def blockBytes (x : BitVec 32 × BitVec 32) : List Byte :=
  Word32.bytesLE x.1 ++ Word32.bytesLE x.2

lemma blockBytes_injective : Function.Injective blockBytes := by
  intro x y h
  obtain ⟨h₁, h₂⟩ := List.append_inj h rfl
  exact Prod.ext (Word32.bytesLE_injective h₁) (Word32.bytesLE_injective h₂)

lemma blockBytes_loadBlock (m : Memory A) (v : A) : blockBytes (loadBlock m v) = m.read v 8 := by
  rw [blockBytes, loadBlock, Memory.bytesLE_load32, Memory.bytesLE_load32]
  exact (Memory.read_add m v 4 4).symm

lemma loadBlock_congr {m : Memory A} {m' : Memory B} {v : A} {w : B}
    (h : m.read v 8 = m'.read w 8) : loadBlock m v = loadBlock m' w := by
  rw [← blockBytes_loadBlock, ← blockBytes_loadBlock] at h
  exact blockBytes_injective h

/-- A sixteen-byte key is the same key wherever it lies, also in memories with addresses of different
widths. -/
lemma keyAt_congr {m : Memory A} {m' : Memory B} {key : A} {key' : B}
    (h : m.read key 16 = m'.read key' 16) : ∀ i < 4, keyAt m key i = keyAt m' key' i := by
  intro i hi
  exact Memory.load32_congr (Memory.read_eq_of_read_eq h (by omega))

variable [DecidableEq A]

/-- `v[0]=v0; v[1]=v1;`, with which both routines end: one store of the eight bytes of the block. -/
def storeBlock (m : Memory A) (v : A) (x : BitVec 32 × BitVec 32) : Memory A :=
  m.write v (blockBytes x)

lemma loadBlock_storeBlock_self (m : Memory A) (v : A) (x : BitVec 32 × BitVec 32)
    (hd : Memory.OffsetsDistinct v 8) : loadBlock (storeBlock m v x) v = x := by
  apply blockBytes_injective
  rw [blockBytes_loadBlock]
  exact Memory.read_write_self m v (blockBytes x) hd

lemma read_storeBlock_of_apart (m : Memory A) (v w : A) (x : BitVec 32 × BitVec 32) {n : ℕ}
    (h : Memory.Apart v 8 w n) : (storeBlock m v x).read w n = m.read w n :=
  Memory.read_write_of_apart m v w (blockBytes x) n h

/-- `myencrypt`: memory after the call, with the block at `v` replaced by the words the loop leaves. -/
def myencrypt (m : Memory A) (v : A) (km : Memory B) (key : B) : Memory A :=
  storeBlock m v (encryptWords (keyAt km key) (loadBlock m v))

/-- `mydecrypt`: memory after the call, with the block at `v` replaced by the words the loop leaves. -/
def mydecrypt (m : Memory A) (v : A) (km : Memory B) (key : B) : Memory A :=
  storeBlock m v (decryptWords (keyAt km key) (loadBlock m v))

end Pointers

end Whuctf.Client
