import Whuctf.MiaES.KeySchedule

/-!
# Decryption of miaES inverts encryption

`encrypt` computes the cipher under the round keys of `expand_key`, and `decrypt` its inverse
permutation, for every key size.  Both succeed, so no index of theirs is out of range.

`encrypt` and `decrypt` cut the rounds at different places: one adds the key at the end of a round, the
other in front of the mixing.  `cipher_eq` cuts the cipher as `decrypt` does, and after that the two
are inverse round by round.

The sixteen bytes of a text and a block are two forms of one thing (`blockOf`, `bytesOf`), so both
functions are also inverse on texts.
-/

namespace Whuctf.MiaES

open Python

/-! ## Byte strings and blocks -/

def blockSize : ℕ := 16

/-- The state of sixteen bytes, four of them in each row. -/
def blockOf (text : List Byte) : Block := fun i => columnAt text i

/-- The sixteen bytes of a state, one row behind the other. -/
def bytesOf (b : Block) : List Byte := (List.ofFn fun i => List.ofFn (b i)).flatten

@[simp] lemma length_bytesOf (b : Block) : (bytesOf b).length = 16 := by
  simp [bytesOf]

lemma bytes2matrix_block {text : List Byte} (h : text.length = 16) :
    bytes2matrix text = (blockOf text).toMatrix := by
  rw [bytes2matrix_eq text (n := 4) h]
  rfl

lemma matrix2bytes_toMatrix (b : Block) : matrix2bytes b.toMatrix = .ok (bytesOf b) := by
  have hints : b.toMatrix.flatten = ints (bytesOf b) := by
    simp [Block.toMatrix, Column.toInts, bytesOf, ints]
  rw [matrix2bytes, hints, bytes_ints]

lemma blockOf_injective {text text' : List Byte} (h : text.length = 16) (h' : text'.length = 16)
    (heq : blockOf text = blockOf text') : text = text' := by
  apply List.ext_getElem (h.trans h'.symm)
  intro n hn hn'
  have hcell := congrFun (congrFun heq ⟨n / 4, by omega⟩) ⟨n % 4, by omega⟩
  simp only [blockOf, columnAt, Nat.div_add_mod] at hcell
  rwa [List.getD_eq_getElem _ _ hn, List.getD_eq_getElem _ _ hn'] at hcell

lemma blockOf_bytesOf (b : Block) : blockOf (bytesOf b) = b := by
  funext i j
  fin_cases i <;> fin_cases j <;> rfl

lemma bytesOf_blockOf {text : List Byte} (h : text.length = 16) : bytesOf (blockOf text) = text :=
  blockOf_injective (length_bytesOf _) h (blockOf_bytesOf _)

/-! ## The rounds -/

section Rounds

/-- A list of round keys, as the source holds it. -/
def keyMatrices (key : ℕ → Block) : List Matrix := (List.range 11).map fun i => (key i).toMatrix

variable (key : ℕ → Block)

lemma getItem_keyMatrices {i : ℕ} (hi : i < 11) :
    getItem (keyMatrices key) (i : ℕ) = .ok (key i).toMatrix := by
  rw [getItem_ofNat (by simpa [keyMatrices] using hi)]
  simp [keyMatrices]

lemma getItem_keyMatrices_first : getItem (keyMatrices key) 0 = .ok (key 0).toMatrix :=
  getItem_keyMatrices key (i := 0) (by omega)

lemma getItem_keyMatrices_last : getItem (keyMatrices key) (-1) = .ok (key 10).toMatrix := by
  have hlast := getItem_neg (l := keyMatrices key) (i := 1) one_pos (by simp [keyMatrices])
  simpa [keyMatrices] using hlast

lemma lt_of_mem_rounds {i : ℕ} (hi : i ∈ List.range' 1 (nRounds - 1)) : i < 11 := by
  simp [nRounds] at hi
  omega

lemma encryptRound_refines {i : ℕ} (hi : i ∈ List.range' 1 (nRounds - 1)) :
    Refines Block.toMatrix (fun m => encryptRound (keyMatrices key) m i) (middleRound (key i)) := by
  intro b
  simp only [encryptRound, getItem_keyMatrices key (lt_of_mem_rounds hi), ok_bind]
  have hlayers := (subBytes_refines getItem_sBox (π := sBoxPerm)).comp
    (shiftRows_refines.comp (mixColumns_refines.comp (addRoundKey_refines (key i))))
  refine (hlayers b).trans ?_
  simp only [middleRound, Equiv.Perm.coe_mul, Function.comp_apply]

lemma encryptRounds_refines :
    Refines Block.toMatrix (encryptRounds (keyMatrices key)) (cipher key) := by
  have hloop := Refines.foldlM fun i hi => encryptRound_refines key (i := i) hi
  have hlast := (subBytes_refines getItem_sBox (π := sBoxPerm)).comp
    (shiftRows_refines.comp (addRoundKey_refines (key 10)))
  intro b
  simp only [encryptRounds, getItem_keyMatrices_first, getItem_keyMatrices_last, ok_bind]
  refine ((addRoundKey_refines (key 0)).comp (hloop.comp hlast) b).trans ?_
  rw [cipher, lastRound, Equiv.Perm.mul_apply, Equiv.Perm.mul_apply, Equiv.Perm.mul_apply,
    Equiv.Perm.mul_apply]
  rfl

/-- The cipher with its rounds cut as `decrypt` takes them, before the substitution. -/
lemma cipher_eq : cipher key =
    addKey (key 10) * (permSeq (fun i => (shiftBlock * mapCells sBoxPerm) * (addKey (key i) * mixBlock))
      (List.range' 1 9) * ((shiftBlock * mapCells sBoxPerm) * addKey (key 0))) := by
  have hround : (fun i => middleRound (key i)) =
      fun i => addKey (key i) * mixBlock * (shiftBlock * mapCells sBoxPerm) := by
    funext i
    rw [middleRound, mul_assoc]
  rw [cipher, lastRound, hround]
  simp only [mul_assoc (addKey (key 10))]
  rw [← mul_assoc (shiftBlock * mapCells sBoxPerm) _ (addKey (key 0)), mul_permSeq, mul_assoc]

lemma decryptRound_refines {i : ℕ} (hi : i ∈ List.range' 1 (nRounds - 1)) :
    Refines Block.toMatrix (fun c => decryptRound (keyMatrices key) c i)
      ((shiftBlock * mapCells sBoxPerm * (addKey (key i) * mixBlock))⁻¹ : Equiv.Perm Block) := by
  intro b
  simp only [decryptRound, getItem_keyMatrices key (lt_of_mem_rounds hi), ok_bind]
  have hlayers := invShiftRows_refines.comp
    ((subBytes_refines getItem_invSBox (π := sBoxPerm⁻¹)).comp
      ((addRoundKey_refines (key i)).comp invMixColumns_refines))
  refine (hlayers b).trans ?_
  simp only [mul_inv_rev, addKey_inv, mapCells_inv, Equiv.Perm.coe_mul, Function.comp_apply]

lemma decryptRounds_refines :
    Refines Block.toMatrix (decryptRounds (keyMatrices key)) ((cipher key)⁻¹ : Equiv.Perm Block) := by
  have hloop := Refines.foldlM_reverse fun i hi => decryptRound_refines key (i := i) hi
  have hlast := invShiftRows_refines.comp ((subBytes_refines getItem_invSBox (π := sBoxPerm⁻¹)).comp
    (addRoundKey_refines (key 0)))
  intro b
  simp only [decryptRounds, getItem_keyMatrices_first, getItem_keyMatrices_last, ok_bind]
  refine ((addRoundKey_refines (key 10)).comp (hloop.comp hlast) b).trans ?_
  rw [cipher_eq]
  simp only [nRounds, mul_inv_rev, addKey_inv, mapCells_inv, Equiv.Perm.coe_mul,
    Function.comp_apply]

end Rounds

/-! ## Encryption and decryption of byte strings -/

section Bytes

variable {k m : List Byte}

lemma encrypt_eq (hk : k.length ∈ keySize) (hm : m.length = 16) :
    encrypt k m = .ok (bytesOf (cipher (roundKey k) (blockOf m))) := by
  unfold encrypt
  rw [expandKey_eq hk, ok_bind, bytes2matrix_block hm]
  show (encryptRounds (keyMatrices (roundKey k)) (blockOf m).toMatrix >>= _) = _
  rw [encryptRounds_refines, ok_bind, matrix2bytes_toMatrix]

lemma decrypt_eq (hk : k.length ∈ keySize) (hm : m.length = 16) :
    decrypt k m = .ok (bytesOf ((cipher (roundKey k)).symm (blockOf m))) := by
  unfold decrypt
  rw [expandKey_eq hk, ok_bind, bytes2matrix_block hm]
  show (decryptRounds (keyMatrices (roundKey k)) (blockOf m).toMatrix >>= _) = _
  rw [decryptRounds_refines, ok_bind, matrix2bytes_toMatrix, Equiv.Perm.inv_def]

/-- Under every key of one of the three sizes, the expansion, encryption and decryption of any block
succeed, and decryption and encryption undo each other. -/
theorem decrypt_encrypt_inverse (hk : k.length ∈ keySize) (hm : m.length = blockSize) :
    (∃ roundKeys, expandKey k = .ok roundKeys) ∧
      (∃ c, encrypt k m = .ok c ∧ decrypt k c = .ok m) ∧
      ∃ p, decrypt k m = .ok p ∧ encrypt k p = .ok m := by
  refine ⟨⟨_, expandKey_eq hk⟩, ⟨_, encrypt_eq hk hm, ?_⟩, ⟨_, decrypt_eq hk hm, ?_⟩⟩
  · rw [decrypt_eq hk (length_bytesOf _), blockOf_bytesOf, Equiv.symm_apply_apply,
      bytesOf_blockOf hm]
  · rw [encrypt_eq hk (length_bytesOf _), blockOf_bytesOf, Equiv.apply_symm_apply,
      bytesOf_blockOf hm]

theorem decrypt_encrypt_inverse_zeros :
    ∃ c, encrypt (List.replicate 24 0#8) (List.replicate 16 0#8) = .ok c ∧
      decrypt (List.replicate 24 0#8) c = .ok (List.replicate 16 0#8) :=
  (decrypt_encrypt_inverse (k := List.replicate 24 0#8) (m := List.replicate 16 0#8) (by decide)
    (by decide)).2.1

end Bytes

end Whuctf.MiaES
