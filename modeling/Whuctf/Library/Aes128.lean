import Mathlib.Algebra.BigOperators.Fin
import Mathlib.LinearAlgebra.Matrix.Notation
import Mathlib.Tactic.FinCases
import Whuctf.Library.Gf256

/-!
# AES with keys of 128 bits

The cipher of FIPS 197 over the field of 256 elements.  The state has a row and a column index, `s r c`
being byte `r` of column `c`, and the sixteen bytes of a block fill it column by column.

The layers are the standard's: the S-box is the inverse of the field followed by an affine map of the
bits, `MixColumns` multiplies each column by a matrix over the field, and the round constants are
powers of the root.  Beside each stands its value on bytes (`sBox_of_mulByte`,
`mixColumns_eq`, `rcon_eq`).

Since the layers are given by the mathematics of the standard and not by tables, an implementation with
tables is compared with them entry by entry; the inverse cipher is treated the same way.  The
definitions over the field cannot be computed with, and the values on bytes are what a proof evaluates.
-/

namespace Whuctf.Aes128

open Gf256

/-- The state: row, then column, so that a column is what the state gives for a fixed second index. -/
abbrev State := Fin 4 → Fin 4 → Byte

/-- Four bytes of the key schedule, which are one column of a round key. -/
abbrev Word := Fin 4 → Byte

/-! ## The layers -/

/-- The affine map of the S-box.  Bit `i` becomes the sum of the bits `i`, `i + 4`, …, `i + 7`
modulo 8 and bit `i` of the constant. -/
def affine (x : Byte) : Byte :=
  x ^^^ x.rotateRight 4 ^^^ x.rotateRight 5 ^^^ x.rotateRight 6 ^^^ x.rotateRight 7 ^^^ 0x63#8

/-- The S-box: inversion in the field, then the affine map. -/
noncomputable def sBox (b : Byte) : Byte := affine (byteEquiv.symm (byteEquiv b)⁻¹)

/-- `SubBytes`: the S-box on every byte of the state. -/
noncomputable def subBytes (s : State) : State := fun r c => sBox (s r c)

/-- `ShiftRows`: row `r` is rotated to the left by `r`, so the byte in column `c` comes from column `c
+ r`, counted modulo 4. -/
def shiftRows (s : State) : State := fun r c => s r (c + r)

/-- The matrix of `MixColumns`: each row is the one above it, rotated to the right. -/
noncomputable def mixMatrix : Matrix (Fin 4) (Fin 4) GF := Matrix.of fun r k =>
  byteEquiv (![0x02#8, 0x03#8, 0x01#8, 0x01#8] (k - r))

/-- `MixColumns`: each column is multiplied by the matrix, over the field of 256 elements. -/
noncomputable def mixColumns (s : State) : State := fun r c =>
  byteEquiv.symm (mixMatrix.mulVec (fun k => byteEquiv (s k c)) r)

/-- `AddRoundKey`: column `c` is added to word `c` of the round key. -/
def addRoundKey (s : State) (k : Fin 4 → Word) : State := fun r c => s r c ^^^ k c r

/-! ## The key schedule

Forty-four words, the first four of them the key.  A word is the sum of the one before it and the one
four places back; in every fourth word the former is rotated, substituted and added to a round
constant. -/

/-- `RotWord`: the bytes of a word moved up by one place, the first becoming the last. -/
def rotWord (w : Word) : Word := fun i => w (i + 1)

/-- `SubWord`: the S-box on each of the four bytes, as `SubBytes` on a column. -/
noncomputable def subWord (w : Word) : Word := fun i => sBox (w i)

/-- `Rcon[i]`: the power `i - 1` of the root, and three zeros. -/
noncomputable def rcon (i : ℕ) : Word := fun r =>
  if r = 0 then byteEquiv.symm (AdjoinRoot.root modulus ^ (i - 1)) else 0#8

/-- Word `i` of the expanded key, by recursion on `i`: the schedule for keys of four words, without a
bound on the number of words. -/
noncomputable def keyExpansion (key : Fin 16 → Byte) (i : ℕ) : Word :=
  if h : i < 4 then fun r => key ⟨4 * i + r, by omega⟩
  else
    let temp := keyExpansion key (i - 1)
    let temp : Word :=
      if i % 4 = 0 then fun r => subWord (rotWord temp) r ^^^ rcon (i / 4) r else temp
    fun r => keyExpansion key (i - 4) r ^^^ temp r
termination_by i
decreasing_by all_goals omega

/-- The four words of a round key, from the expanded key. -/
noncomputable def roundKey (key : Fin 16 → Byte) (round : ℕ) : Fin 4 → Word := fun c =>
  keyExpansion key (4 * round + c)

/-! ## The cipher -/

/-- The state of a block, filled column by column: the first four bytes of the block are the first
column. -/
def load (block : Fin 16 → Byte) : State := fun r c => block ⟨4 * c + r, by omega⟩

/-- The block of a state, read column by column, as `load` fills it. -/
def store (s : State) : Fin 16 → Byte := fun i => s ⟨i % 4, by omega⟩ ⟨i / 4, by omega⟩

/-- A round before the last: all four layers, in the order of the standard, with the round key `n`. -/
noncomputable def round (key : Fin 16 → Byte) (s : State) (n : ℕ) : State :=
  addRoundKey (mixColumns (shiftRows (subBytes s))) (roundKey key n)

/-- `Cipher`, with ten rounds: the key is added first, nine full rounds follow, and the last one leaves
out `MixColumns`. -/
noncomputable def cipher (key block : Fin 16 → Byte) : Fin 16 → Byte :=
  let s := addRoundKey (load block) (roundKey key 0)
  let s := (List.range' 1 9).foldl (round key) s
  store (addRoundKey (shiftRows (subBytes s)) (roundKey key 10))

/-! ## The layers on bytes -/

lemma sBox_zero : sBox 0#8 = 0x63#8 := by
  rw [sBox, byteEquiv_apply, ofByte_zero, inv_zero, ← ofByte_zero, byteEquiv_symm_ofByte]
  decide

/-- The S-box at a byte with the inverse `c`, which a product computed on bytes identifies. -/
lemma sBox_of_mulByte {b c : Byte} (h : mulByte b c = 1#8) : sBox b = affine c := by
  rw [sBox, byteEquiv_apply, inv_ofByte h, byteEquiv_symm_ofByte]

/-- Multiplication by `2` is `xtime`, by `3` that and the byte itself. -/
lemma mixColumns_eq (s : State) (r c : Fin 4) :
    mixColumns s r c = xtime (s r c) ^^^ (xtime (s (r + 1) c) ^^^ s (r + 1) c) ^^^
      s (r + 2) c ^^^ s (r + 3) c := by
  have htwo : ofByte 0x02#8 = AdjoinRoot.root modulus := by
    have hroot := ofByte_xtime 1#8
    rwa [ofByte_one, mul_one] at hroot
  have hthree : ofByte 0x03#8 = AdjoinRoot.root modulus + 1 := by
    have hsum := ofByte_xor 0x02#8 1#8
    rwa [htwo, ofByte_one] at hsum
  rw [mixColumns, Equiv.symm_apply_eq]
  simp only [byteEquiv_apply, ofByte_xor, ofByte_xtime, Matrix.mulVec, dotProduct, mixMatrix,
    Matrix.of_apply, Fin.sum_univ_four]
  fin_cases r <;> simp [htwo, hthree] <;> ring

lemma rcon_eq (i : ℕ) (r : Fin 4) :
    rcon i r = if r = 0 then xtime^[i - 1] 1#8 else 0#8 := by
  have hpower : byteEquiv.symm (AdjoinRoot.root modulus ^ (i - 1)) = xtime^[i - 1] 1#8 := by
    rw [Equiv.symm_apply_eq, byteEquiv_apply, ofByte_xtime_iterate, ofByte_one, mul_one]
  rw [rcon, hpower]

/-! ## The inverse cipher

`InvCipher` undoes the layers in the opposite order.  Behind `ShiftRows` and `SubBytes` a round of it
takes back a round of the cipher (`invRound_round`), so the rounds cancel from the inside
(`foldl_reverse_cancel`). -/

/-- The inverse of the affine map, made of rotations and a constant as the map itself is. -/
def invAffine (x : Byte) : Byte :=
  x.rotateRight 2 ^^^ x.rotateRight 5 ^^^ x.rotateRight 7 ^^^ 0x05#8

/-- The inverse S-box: the inverse of the affine map, then inversion in the field. -/
noncomputable def invSBox (b : Byte) : Byte := byteEquiv.symm (byteEquiv (invAffine b))⁻¹

/-- `InvSubBytes`: the inverse S-box on every byte of the state. -/
noncomputable def invSubBytes (s : State) : State := fun r c => invSBox (s r c)

/-- `InvShiftRows`: row `r` is rotated to the right by `r`. -/
def invShiftRows (s : State) : State := fun r c => s r (c - r)

/-- The matrix of `InvMixColumns`, again one row rotated into four. -/
noncomputable def invMixMatrix : Matrix (Fin 4) (Fin 4) GF := Matrix.of fun r k =>
  byteEquiv (![0x0E#8, 0x0B#8, 0x0D#8, 0x09#8] (k - r))

/-- `InvMixColumns`: each column is multiplied by the inverse matrix. -/
noncomputable def invMixColumns (s : State) : State := fun r c =>
  byteEquiv.symm (invMixMatrix.mulVec (fun k => byteEquiv (s k c)) r)

/-- A round of `InvCipher` before the last: rows, bytes, round key, columns, each undone in the order
the standard gives. -/
noncomputable def invRound (key : Fin 16 → Byte) (s : State) (n : ℕ) : State :=
  invMixColumns (addRoundKey (invSubBytes (invShiftRows s)) (roundKey key n))

/-- `InvCipher`, with ten rounds, over the same round keys as `Cipher` and from the last of them to the
first. -/
noncomputable def invCipher (key block : Fin 16 → Byte) : Fin 16 → Byte :=
  let s := addRoundKey (load block) (roundKey key 10)
  let s := (List.range' 1 9).reverse.foldl (invRound key) s
  store (addRoundKey (invSubBytes (invShiftRows s)) (roundKey key 0))

lemma invAffine_affine : ∀ x, invAffine (affine x) = x := by decide +kernel

lemma affine_invAffine : ∀ x, affine (invAffine x) = x := by decide +kernel

@[simp] lemma invSBox_sBox (b : Byte) : invSBox (sBox b) = b := by
  rw [invSBox, sBox, invAffine_affine, Equiv.apply_symm_apply, inv_inv, Equiv.symm_apply_apply]

@[simp] lemma sBox_invSBox (b : Byte) : sBox (invSBox b) = b := by
  rw [sBox, invSBox, Equiv.apply_symm_apply, inv_inv, Equiv.symm_apply_apply, affine_invAffine]

@[simp] lemma invSubBytes_subBytes (s : State) : invSubBytes (subBytes s) = s := by
  funext r c
  exact invSBox_sBox (s r c)

@[simp] lemma subBytes_invSubBytes (s : State) : subBytes (invSubBytes s) = s := by
  funext r c
  exact sBox_invSBox (s r c)

@[simp] lemma invShiftRows_shiftRows (s : State) : invShiftRows (shiftRows s) = s := by
  funext r c
  rw [invShiftRows, shiftRows, sub_add_cancel]

@[simp] lemma shiftRows_invShiftRows (s : State) : shiftRows (invShiftRows s) = s := by
  funext r c
  rw [shiftRows, invShiftRows, add_sub_cancel_right]

@[simp] lemma addRoundKey_addRoundKey (s : State) (k : Fin 4 → Word) :
    addRoundKey (addRoundKey s k) k = s := by
  funext r c
  rw [addRoundKey, addRoundKey, BitVec.xor_assoc, BitVec.xor_self, BitVec.xor_zero]

/-- The circulants of `0E 0B 0D 09` and `02 03 01 01` are inverse to each other. -/
lemma invMixMatrix_mul_mixMatrix : invMixMatrix * mixMatrix = 1 := by
  ext r c
  simp only [Matrix.mul_apply, Fin.sum_univ_four, invMixMatrix, mixMatrix, Matrix.of_apply,
    byteEquiv_apply, ← ofByte_mulByte, ← ofByte_xor, Matrix.one_apply, ← ofByte_one, ← ofByte_zero,
    ← apply_ite ofByte]
  refine congrArg ofByte ?_
  revert r c
  decide +kernel

lemma mixMatrix_mul_invMixMatrix : mixMatrix * invMixMatrix = 1 :=
  mul_eq_one_comm.mp invMixMatrix_mul_mixMatrix

@[simp] lemma invMixColumns_mixColumns (s : State) : invMixColumns (mixColumns s) = s := by
  funext r c
  simp only [invMixColumns, mixColumns, Equiv.apply_symm_apply]
  rw [Matrix.mulVec_mulVec, invMixMatrix_mul_mixMatrix, Matrix.one_mulVec, Equiv.symm_apply_apply]

@[simp] lemma mixColumns_invMixColumns (s : State) : mixColumns (invMixColumns s) = s := by
  funext r c
  simp only [invMixColumns, mixColumns, Equiv.apply_symm_apply]
  rw [Matrix.mulVec_mulVec, mixMatrix_mul_invMixMatrix, Matrix.one_mulVec, Equiv.symm_apply_apply]

@[simp] lemma load_store (s : State) : load (store s) = s := by
  funext r c
  rw [load, store]
  congr 1
  · apply Fin.ext
    dsimp only
    omega
  · apply Fin.ext
    dsimp only
    omega

@[simp] lemma store_load (block : Fin 16 → Byte) : store (load block) = block := by
  funext i
  rw [store, load]
  congr 1
  apply Fin.ext
  dsimp only
  omega

/-- A round of the inverse cipher takes back a round of the cipher. -/
lemma invRound_round (key : Fin 16 → Byte) (s : State) (n : ℕ) :
    invRound key (shiftRows (subBytes (round key s n))) n = shiftRows (subBytes s) := by
  simp [invRound, round]

/-- A round of the cipher takes back a round of the inverse cipher. -/
lemma round_invRound (key : Fin 16 → Byte) (s : State) (n : ℕ) :
    round key (invSubBytes (invShiftRows (invRound key s n))) n = invSubBytes (invShiftRows s) := by
  simp [invRound, round]

/-- Steps that are taken back one by one behind `φ` are taken back as a whole. -/
lemma foldl_reverse_cancel {α ι : Type*} {f g : α → ι → α} {φ : α → α}
    (hstep : ∀ a i, g (φ (f a i)) i = φ a) (l : List ι) (a : α) :
    l.reverse.foldl g (φ (l.foldl f a)) = φ a := by
  induction l generalizing a with
  | nil => rfl
  | cons i rest ih =>
    simp only [List.reverse_cons, List.foldl_append, List.foldl_cons, List.foldl_nil]
    rw [ih (f a i)]
    exact hstep a i

/-- `InvCipher` inverts `Cipher` on every block, under the same key. -/
lemma invCipher_cipher (key block : Fin 16 → Byte) : invCipher key (cipher key block) = block := by
  have hrounds := foldl_reverse_cancel (φ := fun s => shiftRows (subBytes s)) (invRound_round key)
    (List.range' 1 9) (addRoundKey (load block) (roundKey key 0))
  simp only [invCipher, cipher, load_store, addRoundKey_addRoundKey, hrounds,
    invShiftRows_shiftRows, invSubBytes_subBytes, store_load]

/-- `Cipher` inverts `InvCipher` on every block, so both are permutations of the blocks. -/
lemma cipher_invCipher (key block : Fin 16 → Byte) : cipher key (invCipher key block) = block := by
  have hrounds := foldl_reverse_cancel (φ := fun s => invSubBytes (invShiftRows s))
    (round_invRound key) (List.range' 1 9).reverse (addRoundKey (load block) (roundKey key 10))
  simp only [List.reverse_reverse] at hrounds
  simp only [invCipher, cipher, load_store, addRoundKey_addRoundKey, hrounds,
    subBytes_invSubBytes, shiftRows_invShiftRows, store_load]

end Whuctf.Aes128
