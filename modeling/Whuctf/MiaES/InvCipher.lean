import Whuctf.MiaES.Fips

/-!
# Decryption of the original cipher is the standard's inverse cipher

`decrypt` of `std_bk.py` computes `InvCipher` of FIPS 197 (`decrypt_eq_invCipher`).  It takes the
layers in the standard's order: in a round the state is rotated and substituted back before the round
key is added, and the columns are mixed back last.  So the rounds of the program are followed as they
stand, without cutting those of the cipher anew.

The program mixes the columns back by a first half of its own and a call of `mix_columns`, where the
standard multiplies by a second matrix.  Both undo `MixColumns`, so they agree
(`invMixColumns_transpose`).
-/

namespace Whuctf.MiaES

open Python

namespace StdBk

/-- `inv_shift_rows` of `std_bk.py`, whose rotation goes the other way than that of `std.py`. -/
def invShiftRows (s : Matrix) : Except PyError Matrix := do
  let s ← assignCells s [(0, 1), (1, 1), (2, 1), (3, 1)] [(3, 1), (0, 1), (1, 1), (2, 1)]
  let s ← assignCells s [(0, 2), (1, 2), (2, 2), (3, 2)] [(2, 2), (3, 2), (0, 2), (1, 2)]
  assignCells s [(0, 3), (1, 3), (2, 3), (3, 3)] [(1, 3), (2, 3), (3, 3), (0, 3)]

/-- The loop body of `decrypt`: rows and bytes back, the round key, columns back. -/
def decryptRound (roundKeys : List Matrix) (c : Matrix) (i : ℕ) : Except PyError Matrix := do
  let c ← invShiftRows c
  let c ← subBytes c invSBox
  let c ← addRoundKey c (← getItem roundKeys i)
  invMixColumns c

/-- The rounds of `decrypt` on the state, with the round keys given. -/
def decryptRounds (roundKeys : List Matrix) (c : Matrix) : Except PyError Matrix := do
  let c ← addRoundKey c (← getItem roundKeys (-1))
  -- `range(N_ROUNDS - 1, 0, -1)`
  let c ← (List.range' 1 (nRounds - 1)).reverse.foldlM (decryptRound roundKeys) c
  let c ← invShiftRows c
  let c ← subBytes c invSBox
  addRoundKey c (← getItem roundKeys 0)

/-- `decrypt` of `std_bk.py`: the expansion of the key, the rounds, and the bytes of the state they
leave. -/
def decrypt (k c : List Byte) : Except PyError (List Byte) := do
  let roundKeys ← expandKey k
  let c ← decryptRounds roundKeys (bytes2matrix c)
  matrix2bytes c

end StdBk

/-! ## The rounds on blocks -/

/-- A round of `decrypt` on blocks, under the round key `k`. -/
def invRound (k : Block) : Equiv.Perm Block :=
  mixBlock⁻¹ * (addKey k * (mapCells sBoxPerm⁻¹ * shiftBlock))

/-- The rounds of `decrypt` on blocks, from the last key to the first. -/
def decipher (key : ℕ → Block) : Equiv.Perm Block :=
  addKey (key 0) * (mapCells sBoxPerm⁻¹ * shiftBlock) *
    (permSeq (fun i => invRound (key i)) (List.range' 1 9).reverse * addKey (key 10))

section Rounds

variable (key : ℕ → Block)

/-- The inverse rotation of `std_bk.py` is the rotation of `std.py`. -/
lemma stdBk_invShiftRows_refines : Refines Block.toMatrix StdBk.invShiftRows shiftBlock :=
  shiftRows_refines

lemma stdBk_decryptRound_refines {i : ℕ} (hi : i ∈ (List.range' 1 (nRounds - 1)).reverse) :
    Refines Block.toMatrix (fun c => StdBk.decryptRound (keyMatrices key) c i)
      (invRound (key i)) := by
  intro b
  have hround := lt_of_mem_rounds (List.mem_reverse.mp hi)
  simp only [StdBk.decryptRound, getItem_keyMatrices key hround, ok_bind]
  have hlayers := stdBk_invShiftRows_refines.comp
    ((subBytes_refines getItem_invSBox (π := sBoxPerm⁻¹)).comp
      ((stdBk_addRoundKey_refines (key i)).comp invMixColumns_refines))
  refine (hlayers b).trans ?_
  simp only [invRound, Equiv.Perm.coe_mul, Function.comp_apply]

lemma stdBk_decryptRounds_refines :
    Refines Block.toMatrix (StdBk.decryptRounds (keyMatrices key)) (decipher key) := by
  have hloop := Refines.foldlM fun i hi => stdBk_decryptRound_refines key (i := i) hi
  have hlast := stdBk_invShiftRows_refines.comp
    ((subBytes_refines getItem_invSBox (π := sBoxPerm⁻¹)).comp (stdBk_addRoundKey_refines (key 0)))
  intro b
  simp only [StdBk.decryptRounds, getItem_keyMatrices_first, getItem_keyMatrices_last, ok_bind]
  refine ((stdBk_addRoundKey_refines (key 10)).comp (hloop.comp hlast) b).trans ?_
  rw [decipher, Equiv.Perm.mul_apply, Equiv.Perm.mul_apply, Equiv.Perm.mul_apply,
    Equiv.Perm.mul_apply]
  rfl

lemma stdBk_decrypt_eq {k c : List Byte} (hk : k.length ∈ keySize) (hc : c.length = 16) :
    StdBk.decrypt k c = .ok (bytesOf (decipher (roundKey k) (blockOf c))) := by
  unfold StdBk.decrypt
  rw [StdBk.expandKey_eq, expandKey_eq hk, ok_bind, bytes2matrix_block hc]
  show (StdBk.decryptRounds (keyMatrices (roundKey k)) (blockOf c).toMatrix >>= _) = _
  rw [stdBk_decryptRounds_refines, ok_bind, matrix2bytes_toMatrix]

end Rounds

/-! ## The layers of the standard -/

lemma invSubBytes_transpose (b : Block) :
    Aes128.invSubBytes (transpose b) = transpose (mapCells sBoxPerm⁻¹ b) := by
  have hforth : Aes128.subBytes (transpose (mapCells sBoxPerm⁻¹ b)) = transpose b := by
    rw [subBytes_transpose]
    exact congrArg transpose ((mapCells sBoxPerm).apply_symm_apply b)
  rw [← hforth, Aes128.invSubBytes_subBytes]

lemma invShiftRows_transpose (b : Block) :
    Aes128.invShiftRows (transpose b) = transpose (shiftBlock b) := rfl

/-- The two halves of `inv_mix_columns` are the product with the second matrix. -/
lemma invMixColumns_transpose (b : Block) :
    Aes128.invMixColumns (transpose b) = transpose ((mixBlock⁻¹ : Equiv.Perm Block) b) := by
  have hforth : Aes128.mixColumns (transpose ((mixBlock⁻¹ : Equiv.Perm Block) b)) = transpose b := by
    rw [mixColumns_transpose]
    exact congrArg transpose (mixBlock.apply_symm_apply b)
  rw [← hforth, Aes128.invMixColumns_mixColumns]

section Standard

variable (key : Fin 16 → Byte)

/-- A round of `InvCipher` on the transposed state is the transposed round of `decrypt`. -/
lemma invRound_transpose (b : Block) {n : ℕ} (hn : n < 11) :
    Aes128.invRound key (transpose b) n =
      transpose (invRound (MiaES.roundKey (List.ofFn key) n) b) := by
  rw [Aes128.invRound, invShiftRows_transpose, invSubBytes_transpose, roundKey_eq key hn,
    addRoundKey_transpose, invMixColumns_transpose]
  rfl

/-- The rounds of `InvCipher` on the transposed state, one after the other, are those of `decrypt`. -/
lemma invRounds_transpose (rounds : List ℕ) (hrounds : ∀ n ∈ rounds, n < 11) (b : Block) :
    rounds.foldl (Aes128.invRound key) (transpose b) =
      transpose (permSeq (fun n => invRound (roundKey (List.ofFn key) n)) rounds b) := by
  rw [permSeq_apply]
  induction rounds generalizing b with
  | nil => rfl
  | cons n rest ih =>
    rw [List.foldl_cons, List.foldl_cons, invRound_transpose key b (hrounds n List.mem_cons_self)]
    exact ih (fun n' hn' => hrounds n' (List.mem_cons_of_mem n hn')) _

/-- `InvCipher` on the blocks of the program: loading, deciphering the transposed state, and storing. -/
lemma invCipher_eq (block : Fin 16 → Byte) :
    Aes128.invCipher key block =
      Aes128.store (transpose (decipher (roundKey (List.ofFn key)) (blockOf (List.ofFn block)))) := by
  have hrounds : ∀ n ∈ (List.range' 1 9).reverse, n < 11 := by
    intro n hn
    simp only [List.mem_reverse, List.mem_range'_1] at hn
    omega
  simp only [Aes128.invCipher]
  rw [load_eq, roundKey_eq key (by omega), addRoundKey_transpose, invRounds_transpose key _ hrounds,
    invShiftRows_transpose, invSubBytes_transpose, roundKey_eq key (by omega),
    addRoundKey_transpose, decipher, Equiv.Perm.mul_apply, Equiv.Perm.mul_apply,
    Equiv.Perm.mul_apply, Equiv.Perm.mul_apply]

/-- **The inverse cipher of AES-128.**  For every key and every block of sixteen bytes, `decrypt` of
`std_bk.py` returns the output of the standard's inverse cipher, and this is the one block that the
standard's cipher takes to the given one. -/
theorem decrypt_eq_invCipher (block : Fin 16 → Byte) :
    StdBk.decrypt (List.ofFn key) (List.ofFn block) =
        .ok (List.ofFn (Aes128.invCipher key block)) ∧
      ∀ plain : Fin 16 → Byte,
        StdBk.decrypt (List.ofFn key) (List.ofFn block) = .ok (List.ofFn plain) ↔
          Aes128.cipher key plain = block := by
  have hdecrypt : StdBk.decrypt (List.ofFn key) (List.ofFn block) =
      .ok (List.ofFn (Aes128.invCipher key block)) := by
    rw [stdBk_decrypt_eq (by simp [keySize]) (by simp), invCipher_eq, store_eq]
  refine ⟨hdecrypt, fun plain => ?_⟩
  rw [hdecrypt, Except.ok.injEq, List.ofFn_inj]
  constructor
  · rintro rfl
    exact Aes128.cipher_invCipher key block
  · rintro rfl
    exact Aes128.invCipher_cipher key plain

end Standard

end Whuctf.MiaES
