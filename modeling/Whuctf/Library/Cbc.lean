import Mathlib.Data.LawfulXor.Basic
import Mathlib.Data.List.GetD
import Mathlib.Logic.Equiv.Defs
import Whuctf.Library.Python
import Whuctf.Library.Refinement

/-!
# Cipher block chaining with PKCS#7 padding

CBC mode of a block cipher over any type of blocks with a lawful xor: the cipher is a permutation of
the blocks.  Decryption inverts encryption under the same iv, and the iv enters the decryption of the
first block only, by xor.  So whoever knows the first plaintext block can choose what it decrypts to
and leave the rest of the message as it was (`decrypt_replaced`).

On byte strings the mode works on blocks of `n` bytes, and it refuses an iv that is no block and a
text that is not made of whole blocks.  Padding completes a text to whole blocks.
-/

namespace Whuctf.Cbc

open Python

/-! ## The mode

Over blocks of any type with an exclusive or that cancels.  The chaining value of a block is the
ciphertext block before it, and that of the first one the iv, which is an argument of the recursion. -/

section Mode

variable {B : Type*} [XorOp B]

/-- The ciphertext blocks: each plaintext block is xored with the ciphertext block before it. -/
def encrypt (e : Equiv.Perm B) : B → List B → List B
  | _, [] => []
  | iv, p :: ps => e (p ^^^ iv) :: encrypt e (e (p ^^^ iv)) ps

/-- The plaintext blocks: each ciphertext block is decrypted, and xored with the one before it. -/
def decrypt (e : Equiv.Perm B) : B → List B → List B
  | _, [] => []
  | iv, c :: cs => (e.symm c ^^^ iv) :: decrypt e c cs

variable {e : Equiv.Perm B} {iv : B}

@[simp] lemma encrypt_cons (p : B) (ps : List B) :
    encrypt e iv (p :: ps) = e (p ^^^ iv) :: encrypt e (e (p ^^^ iv)) ps := rfl

@[simp] lemma decrypt_cons (c : B) (cs : List B) :
    decrypt e iv (c :: cs) = (e.symm c ^^^ iv) :: decrypt e c cs := rfl

variable [Zero B] [LawfulXor B]

/-- Decryption under the same iv inverts encryption, whatever permutation the block cipher is. -/
lemma decrypt_encrypt (ps : List B) : decrypt e iv (encrypt e iv ps) = ps := by
  induction ps generalizing iv with
  | nil => rfl
  | cons p ps ih =>
    rw [encrypt_cons, decrypt_cons, ih, Equiv.symm_apply_apply, xor_cancel_right]

/-- **Malleability of the first block.**  Under the iv xored with the first plaintext block and with
another block, a ciphertext decrypts to the message that begins with that other block. -/
theorem decrypt_replaced (p q : B) (ps : List B) :
    decrypt e (iv ^^^ p ^^^ q) (encrypt e iv (p :: ps)) = q :: ps := by
  have hfirst : p ^^^ iv ^^^ (iv ^^^ p ^^^ q) = q := by
    rw [xor_comm p iv, xor_cancel_left]
  rw [encrypt_cons, decrypt_cons, decrypt_encrypt, Equiv.symm_apply_apply, hfirst]

end Mode

/-! ## Blocks as vectors -/

section Blocks

variable {α : Type*} {n : ℕ}

/-- The xor of vectors, entry by entry, which blocks of bytes are chained with. -/
instance vectorXor [XorOp α] : XorOp (Vector α n) := ⟨Vector.zipWith (· ^^^ ·)⟩

lemma toList_xor [XorOp α] (v w : Vector α n) :
    (v ^^^ w).toList = List.zipWith (· ^^^ ·) v.toList w.toList :=
  Vector.toList_zipWith

lemma getElem_xor [XorOp α] (v w : Vector α n) {i : ℕ} (hi : i < n) :
    (v ^^^ w)[i] = v[i] ^^^ w[i] :=
  Vector.getElem_zipWith hi

instance vectorLawfulXor [XorOp α] [Zero α] [LawfulXor α] : LawfulXor (Vector α n) where
  xor_assoc u v w := by
    ext i hi
    simp only [getElem_xor, xor_assoc]
  xor_self v := by
    ext i hi
    rw [getElem_xor, LawfulXor.xor_self, Vector.getElem_zero]
  xor_zero v := by
    ext i hi
    rw [getElem_xor, Vector.getElem_zero, xor_zero]
  xor_comm v w := by
    ext i hi
    rw [getElem_xor, getElem_xor, LawfulXor.xor_comm]

/-- The first `k` blocks of a list. -/
def blocksOf [Zero α] (n : ℕ) : ℕ → List α → List (Vector α n)
  | 0, _ => []
  | k + 1, l => Vector.ofFn (fun i => l.getD i 0) :: blocksOf n k (l.drop n)

/-- The list of the blocks' entries, one block behind the other. -/
def joined (blocks : List (Vector α n)) : List α := blocks.flatMap Vector.toList

@[simp] lemma joined_cons (v : Vector α n) (vs : List (Vector α n)) :
    joined (v :: vs) = v.toList ++ joined vs := rfl

lemma length_joined (vs : List (Vector α n)) : (joined vs).length = vs.length * n := by
  induction vs with
  | nil => simp [joined]
  | cons v vs ih =>
    rw [joined_cons, List.length_append, Vector.length_toList, ih, List.length_cons]
    ring

variable [Zero α]

/-- A block in front of a list is its first block. -/
lemma blocksOf_append (v : Vector α n) (k : ℕ) (l : List α) :
    blocksOf n (k + 1) (v.toList ++ l) = v :: blocksOf n k l := by
  have hfirst : Vector.ofFn (fun i : Fin n => (v.toList ++ l).getD i 0) = v := by
    ext i hi
    have hlt : i < v.toList.length := by simpa using hi
    rw [Vector.getElem_ofFn, List.getD_append _ _ _ _ hlt, List.getD_eq_getElem _ _ hlt,
      Vector.getElem_toList]
  have hrest : (v.toList ++ l).drop n = l := by
    rw [List.drop_left' v.length_toList]
  rw [blocksOf, hfirst, hrest]

lemma blocksOf_joined (vs : List (Vector α n)) : blocksOf n vs.length (joined vs) = vs := by
  induction vs with
  | nil => rfl
  | cons v vs ih => rw [joined_cons, List.length_cons, blocksOf_append, ih]

/-- A list of whole blocks consists of its blocks. -/
lemma joined_blocksOf {k : ℕ} {l : List α} (h : l.length = k * n) : joined (blocksOf n k l) = l := by
  induction k generalizing l with
  | zero =>
    obtain rfl : l = [] := List.eq_nil_of_length_eq_zero (by simpa using h)
    rfl
  | succ k ih =>
    have hlength : l.length = k * n + n := by rw [h]; ring
    have hfirst : (Vector.ofFn fun i : Fin n => l.getD i 0).toList = l.take n := by
      apply List.ext_getElem
      · simp [hlength]
      · intro i hi _
        have hl : i < l.length := by simp at hi; omega
        simp [hl]
    rw [blocksOf, joined_cons, hfirst, ih (by rw [List.length_drop]; omega), List.take_append_drop]

end Blocks

/-! ## Byte strings -/

section Bytes

variable {n : ℕ}

/-- The blocks of a text and the iv of a call: both must be made of whole blocks. -/
def inBlocks (n : ℕ) (iv text : List Byte) : Except PyError (Vector Byte n × List (Vector Byte n)) :=
  if h : iv.length = n then
    if text.length % n = 0 then
      .ok (Vector.mk iv.toArray (by simpa using h), blocksOf n (text.length / n) text)
    else .error .valueError
  else .error .valueError

/-- `AES.new(key, AES.MODE_CBC, iv).encrypt(text)`, for any block cipher; the iv has to be one block,
and the text whole blocks. -/
def encryptBytes (e : Equiv.Perm (Vector Byte n)) (iv text : List Byte) :
    Except PyError (List Byte) := do
  let (start, blocks) ← inBlocks n iv text
  return joined (encrypt e start blocks)

/-- `AES.new(key, AES.MODE_CBC, iv).decrypt(text)`, for any block cipher; the iv has to be one block,
and the text whole blocks. -/
def decryptBytes (e : Equiv.Perm (Vector Byte n)) (iv text : List Byte) :
    Except PyError (List Byte) := do
  let (start, blocks) ← inBlocks n iv text
  return joined (decrypt e start blocks)

lemma inBlocks_joined (hn : 0 < n) (iv : Vector Byte n) (blocks : List (Vector Byte n)) :
    inBlocks n iv.toList (joined blocks) = .ok (iv, blocks) := by
  have hwhole : (joined blocks).length % n = 0 := by rw [length_joined, Nat.mul_mod_left]
  have hcount : (joined blocks).length / n = blocks.length := by
    rw [length_joined, Nat.mul_div_cancel _ hn]
  have hiv : Vector.mk iv.toList.toArray (by simp) = iv := Vector.toList_inj.mp rfl
  rw [inBlocks, dif_pos iv.length_toList, if_pos hwhole, hcount, blocksOf_joined, hiv]

lemma encryptBytes_joined (hn : 0 < n) (e : Equiv.Perm (Vector Byte n)) (iv : Vector Byte n)
    (blocks : List (Vector Byte n)) :
    encryptBytes e iv.toList (joined blocks) = .ok (joined (encrypt e iv blocks)) := by
  rw [encryptBytes, inBlocks_joined hn, ok_bind]
  rfl

lemma decryptBytes_joined (hn : 0 < n) (e : Equiv.Perm (Vector Byte n)) (iv : Vector Byte n)
    (blocks : List (Vector Byte n)) :
    decryptBytes e iv.toList (joined blocks) = .ok (joined (decrypt e iv blocks)) := by
  rw [decryptBytes, inBlocks_joined hn, ok_bind]
  rfl

end Bytes

/-! ## Padding

The last byte of a padded text says how long the padding is, so a text of whole blocks gets another
block.  `unpad` checks the length, the last byte and the bytes in front of it, and raises the same
exception whichever check fails. -/

section Padding

variable {n : ℕ}

/-- `padding_len` of a text: from one byte to a whole block. -/
def paddingLen (n : ℕ) (text : List Byte) : ℕ := n - text.length % n

/-- `pad(text, n)`: as many bytes as are missing, each with that number as its value. -/
def pad (n : ℕ) (text : List Byte) : List Byte :=
  text ++ List.replicate (paddingLen n text) (BitVec.ofNat 8 (paddingLen n text))

/-- `unpad(padded, n)`: the text without its padding, or a `ValueError` when the text is empty or no
padding of whole blocks. -/
def unpad (n : ℕ) (padded : List Byte) : Except PyError (List Byte) :=
  match padded.getLast? with
  | none => .error .valueError
  | some last =>
      if padded.length % n ≠ 0 then .error .valueError
      else if last.toNat < 1 ∨ min n padded.length < last.toNat then .error .valueError
      else if padded.drop (padded.length - last.toNat) ≠ List.replicate last.toNat last then
        .error .valueError
      else .ok (sliceToNeg padded last.toNat)

lemma paddingLen_pos (hn : 0 < n) (text : List Byte) : 0 < paddingLen n text :=
  Nat.sub_pos_of_lt (Nat.mod_lt _ hn)

lemma length_pad (hn : 0 < n) (text : List Byte) :
    (pad n text).length = (text.length / n + 1) * n := by
  have hsplit := Nat.div_add_mod text.length n
  have hlt := Nat.mod_lt text.length hn
  have hsum : text.length = text.length / n * n + text.length % n := by rw [mul_comm]; exact hsplit.symm
  rw [pad, List.length_append, List.length_replicate, paddingLen, add_mul, one_mul]
  omega

/-- Padding a text that begins with a whole block pads what follows the block. -/
lemma pad_append {first : List Byte} (hfirst : first.length = n) (rest : List Byte) :
    pad n (first ++ rest) = first ++ pad n rest := by
  have hlen : paddingLen n (first ++ rest) = paddingLen n rest := by
    rw [paddingLen, paddingLen, List.length_append, hfirst, Nat.add_mod_left]
  rw [pad, pad, hlen, List.append_assoc]

lemma joined_pad (hn : 0 < n) (text : List Byte) :
    joined (blocksOf n (text.length / n + 1) (pad n text)) = pad n text :=
  joined_blocksOf (length_pad hn text)

/-- Unpadding inverts padding, for blocks whose length fits a byte. -/
lemma unpad_pad (hn : 0 < n) (hbyte : n < 256) (text : List Byte) :
    unpad n (pad n text) = .ok text := by
  have hpos := paddingLen_pos hn text
  have hle : paddingLen n text ≤ n := Nat.sub_le _ _
  have hlast : (pad n text).getLast? = some (BitVec.ofNat 8 (paddingLen n text)) := by
    rw [pad, List.getLast?_append, List.getLast?_replicate, if_neg hpos.ne']
    rfl
  have hvalue : (BitVec.ofNat 8 (paddingLen n text)).toNat = paddingLen n text := by
    rw [BitVec.toNat_ofNat]
    exact Nat.mod_eq_of_lt (by omega)
  have hwhole : (pad n text).length % n = 0 := by rw [length_pad hn, Nat.mul_mod_left]
  have hlength : (pad n text).length = text.length + paddingLen n text := by simp [pad]
  have hstart : (pad n text).length - paddingLen n text = text.length := by omega
  have hfits : ¬(paddingLen n text < 1 ∨ min n (pad n text).length < paddingLen n text) := by omega
  have htail : (pad n text).drop text.length =
      List.replicate (paddingLen n text) (BitVec.ofNat 8 (paddingLen n text)) := by
    rw [pad, List.drop_left]
  have hhead : (pad n text).take text.length = text := by rw [pad, List.take_left]
  simp only [unpad, hlast, hvalue, hwhole, hfits, hstart, htail, sliceToNeg, hpos.ne', hhead,
    ne_eq, not_true_eq_false, if_false]

end Padding

end Whuctf.Cbc
