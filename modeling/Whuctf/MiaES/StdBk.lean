import Whuctf.MiaES.RoundTrip

/-!
# The two ciphers are one under a relabelling

`std_bk.py` is the cipher before the task changed it: it rotates the rows the other way, and does not
call the helper that was to whiten the keys.  The helper leaves its argument alone, so the key
schedules agree (`StdBk.expandKey_eq`), and what remains is the direction of the rotation.

Swapping columns 1 and 3 of the state turns one direction into the other and commutes with everything
else.  It therefore carries the one cipher to the other, round by round (`relabel_cipherWith`).
-/

namespace Whuctf.MiaES

open Python

/-! ## The functions of `std_bk.py` that differ

The others are text for text those of `Cipher` and are used from there.  Where only the calls of the
helper are missing, the functions are shown to be the same. -/

namespace StdBk

/-- `add_round_key` of `std_bk.py`: as in `task.py`, without the call of the helper. -/
def addRoundKey (s k : Matrix) : Except PyError Matrix := do
  let N := s.length
  if N ≠ k.length then throw .assertionError
  (List.range N).mapM fun i : ℕ => (List.range N).mapM fun j : ℕ => do
    return (← getCell s i j) ^^^ (← getCell k i j)

/-- `shift_rows` of `std_bk.py`: the assignments that `std.py` makes in `inv_shift_rows`. -/
def shiftRows (s : Matrix) : Except PyError Matrix := do
  let s ← assignCells s [(0, 1), (1, 1), (2, 1), (3, 1)] [(1, 1), (2, 1), (3, 1), (0, 1)]
  let s ← assignCells s [(0, 2), (1, 2), (2, 2), (3, 2)] [(2, 2), (3, 2), (0, 2), (1, 2)]
  assignCells s [(0, 3), (1, 3), (2, 3), (3, 3)] [(3, 3), (0, 3), (1, 3), (2, 3)]

/-- `expand_key` of `std_bk.py`: as in `task.py`, without the call of the helper. -/
def expandKey (masterKey : List Byte) : Except PyError (List Matrix) := do
  let keyColumns ← expandLoop masterKey (bytes2matrix masterKey) 1
  return (List.range (keyColumns.length / 4)).map fun i => slice keyColumns (4 * i) (4 * (i + 1))

/-- The loop body of `encrypt`: the four layers, in the layout of this script. -/
def encryptRound (roundKeys : List Matrix) (m : Matrix) (i : ℕ) : Except PyError Matrix := do
  let m ← subBytes m sBox
  let m ← shiftRows m
  let m ← mixColumns m
  addRoundKey m (← getItem roundKeys i)

/-- The rounds of `encrypt` on the state, with the round keys given. -/
def encryptRounds (roundKeys : List Matrix) (m : Matrix) : Except PyError Matrix := do
  let m ← addRoundKey m (← getItem roundKeys 0)
  let m ← (List.range' 1 (nRounds - 1)).foldlM (encryptRound roundKeys) m
  let m ← subBytes m sBox
  let m ← shiftRows m
  addRoundKey m (← getItem roundKeys (-1))

/-- `encrypt` behind its first line: what it does with the round keys. -/
def roundPart (roundKeys : List Matrix) (m : List Byte) : Except PyError (List Byte) := do
  matrix2bytes (← encryptRounds roundKeys (bytes2matrix m))

/-- `encrypt`: the key is expanded, and the rounds are run on the text. -/
def encrypt (k m : List Byte) : Except PyError (List Byte) := do
  roundPart (← expandKey k) m

lemma addRoundKey_eq (s k : Matrix) : addRoundKey s k = MiaES.addRoundKey s k := by
  simp only [addRoundKey, MiaES.addRoundKey, xorKeyMatrix_eq, bind_pure]

lemma expandKey_eq (masterKey : List Byte) : expandKey masterKey = MiaES.expandKey masterKey := by
  simp only [expandKey, MiaES.expandKey, xorKeyMatrices_eq]

end StdBk

/-- `encrypt` of `task.py` behind its first line: what it does with the round keys. -/
def roundPart (roundKeys : List Matrix) (m : List Byte) : Except PyError (List Byte) := do
  matrix2bytes (← encryptRounds roundKeys (bytes2matrix m))

/-! ## The rounds on blocks -/

/-- The cipher with its rotation of the rows as a parameter. -/
def cipherWith (shift : Equiv.Perm Block) (key : ℕ → Block) : Equiv.Perm Block :=
  addKey (key 10) * (shift * mapCells sBoxPerm) *
    (permSeq (fun i => addKey (key i) * (mixBlock * (shift * mapCells sBoxPerm))) (List.range' 1 9) *
      addKey (key 0))

lemma cipher_eq_cipherWith (key : ℕ → Block) : cipher key = cipherWith shiftBlock key := rfl

section StdBk

variable (key : ℕ → Block)

lemma stdBk_addRoundKey_refines (k : Block) :
    Refines Block.toMatrix (fun s => StdBk.addRoundKey s k.toMatrix) (addKey k) := by
  simp only [StdBk.addRoundKey_eq]
  exact addRoundKey_refines k

/-- The rotation of `std_bk.py` is the inverse rotation of `std.py`. -/
lemma stdBk_shiftRows_refines :
    Refines Block.toMatrix StdBk.shiftRows (shiftBlock⁻¹ : Equiv.Perm Block) :=
  invShiftRows_refines

lemma stdBk_encryptRound_refines {i : ℕ} (hi : i ∈ List.range' 1 (nRounds - 1)) :
    Refines Block.toMatrix (fun m => StdBk.encryptRound (keyMatrices key) m i)
      (addKey (key i) * (mixBlock * (shiftBlock⁻¹ * mapCells sBoxPerm)) : Equiv.Perm Block) := by
  intro b
  simp only [StdBk.encryptRound, getItem_keyMatrices key (lt_of_mem_rounds hi), ok_bind]
  have hlayers := (subBytes_refines getItem_sBox (π := sBoxPerm)).comp
    (stdBk_shiftRows_refines.comp
      (mixColumns_refines.comp (stdBk_addRoundKey_refines (key i))))
  refine (hlayers b).trans ?_
  simp only [Equiv.Perm.coe_mul, Function.comp_apply]

lemma stdBk_encryptRounds_refines :
    Refines Block.toMatrix (StdBk.encryptRounds (keyMatrices key)) (cipherWith shiftBlock⁻¹ key) := by
  have hloop := Refines.foldlM fun i hi => stdBk_encryptRound_refines key (i := i) hi
  have hlast := (subBytes_refines getItem_sBox (π := sBoxPerm)).comp
    (stdBk_shiftRows_refines.comp (stdBk_addRoundKey_refines (key 10)))
  intro b
  simp only [StdBk.encryptRounds, getItem_keyMatrices_first, getItem_keyMatrices_last, ok_bind]
  refine ((stdBk_addRoundKey_refines (key 0)).comp (hloop.comp hlast) b).trans ?_
  rw [cipherWith, Equiv.Perm.mul_apply, Equiv.Perm.mul_apply, Equiv.Perm.mul_apply,
    Equiv.Perm.mul_apply]
  rfl

variable {m : List Byte}

lemma roundPart_eq (hm : m.length = 16) :
    roundPart (keyMatrices key) m = .ok (bytesOf (cipherWith shiftBlock key (blockOf m))) := by
  rw [roundPart, bytes2matrix_block hm, encryptRounds_refines, ok_bind, matrix2bytes_toMatrix,
    cipher_eq_cipherWith]

lemma stdBk_roundPart_eq (hm : m.length = 16) :
    StdBk.roundPart (keyMatrices key) m =
      .ok (bytesOf (cipherWith shiftBlock⁻¹ key (blockOf m))) := by
  rw [StdBk.roundPart, bytes2matrix_block hm, stdBk_encryptRounds_refines, ok_bind,
    matrix2bytes_toMatrix]

/-- `encrypt` of `std_bk.py` computes the cipher with the other rotation. -/
lemma stdBk_encrypt_eq {k : List Byte} (hk : k.length ∈ keySize) (hm : m.length = 16) :
    StdBk.encrypt k m = .ok (bytesOf (cipherWith shiftBlock⁻¹ (roundKey k) (blockOf m))) := by
  rw [StdBk.encrypt, StdBk.expandKey_eq, expandKey_eq hk, ok_bind]
  exact stdBk_roundPart_eq (roundKey k) hm

end StdBk

/-! ## The relabelling

Column `i` goes to the place of column `-i`, counted modulo 4, which exchanges columns 1 and 3.
Substitution, mixing and key addition treat all columns alike. -/

/-- Column `i` of the state in the place of column `-i`. -/
def relabel : Equiv.Perm Block where
  toFun b i := b (-i)
  invFun b i := b (-i)
  left_inv b := by
    funext i
    simp
  right_inv b := by
    funext i
    simp

lemma relabel_relabel (b : Block) : relabel (relabel b) = b := relabel.left_inv b

lemma relabel_mapCells (π : Equiv.Perm Byte) : SemiconjBy relabel (mapCells π) (mapCells π) :=
  Equiv.ext fun _ => rfl

lemma relabel_mixBlock : SemiconjBy relabel mixBlock mixBlock :=
  Equiv.ext fun _ => rfl

lemma relabel_addKey (k : Block) : SemiconjBy relabel (addKey k) (addKey (relabel k)) :=
  Equiv.ext fun _ => rfl

/-- The relabelling turns one rotation into the other, since swapping columns 1 and 3 turns the order
of the columns around. -/
lemma relabel_shiftBlock : SemiconjBy relabel shiftBlock⁻¹ shiftBlock := by
  apply Equiv.ext
  intro b
  funext i j
  have hindex : -i + j = -(i - j) := by rw [neg_sub, neg_add_eq_sub]
  show b (-i + j) j = b (-(i - j)) j
  rw [hindex]

/-- **The relabelling carries one cipher to the other**, with the round keys relabelled too. -/
lemma relabel_cipherWith (key : ℕ → Block) :
    SemiconjBy relabel (cipherWith shiftBlock⁻¹ fun i => relabel (key i))
      (cipherWith shiftBlock key) := by
  have hkey : ∀ i, SemiconjBy relabel (addKey (relabel (key i))) (addKey (key i)) := by
    intro i
    have hback := relabel_addKey (relabel (key i))
    rwa [relabel_relabel] at hback
  have hsub : SemiconjBy relabel (shiftBlock⁻¹ * mapCells sBoxPerm) (shiftBlock * mapCells sBoxPerm) :=
    relabel_shiftBlock.mul_right (relabel_mapCells sBoxPerm)
  exact ((hkey 10).mul_right hsub).mul_right
    ((permSeq_semiconj (fun i => (hkey i).mul_right (relabel_mixBlock.mul_right hsub)) _).mul_right
      (hkey 0))

/-! ## The relabelling on the data of the programs -/

/-- Columns 1 and 3 of a state swapped. -/
def swapColumns (s : Matrix) : Matrix :=
  match s with
  | [c₀, c₁, c₂, c₃] => [c₀, c₃, c₂, c₁]
  | s => s

/-- Columns 1 and 3 of sixteen bytes swapped. -/
def swapBlock (m : List Byte) : List Byte :=
  slice m 0 4 ++ slice m 12 16 ++ slice m 8 12 ++ slice m 4 8

lemma swapColumns_toMatrix (b : Block) : swapColumns b.toMatrix = (relabel b).toMatrix := rfl

lemma swapBlock_bytesOf (b : Block) : swapBlock (bytesOf b) = bytesOf (relabel b) := rfl

lemma blockOf_swapBlock {m : List Byte} (hm : m.length = 16) :
    blockOf (swapBlock m) = relabel (blockOf m) := by
  rw [← bytesOf_blockOf hm, swapBlock_bytesOf, blockOf_bytesOf, blockOf_bytesOf]

lemma length_swapBlock {m : List Byte} (hm : m.length = 16) : (swapBlock m).length = 16 := by
  rw [← bytesOf_blockOf hm, swapBlock_bytesOf, length_bytesOf]

lemma swapColumns_keyMatrices (key : ℕ → Block) :
    (keyMatrices key).map swapColumns = keyMatrices fun i => relabel (key i) := by
  rw [keyMatrices, List.map_map]
  exact List.map_congr_left fun i _ => swapColumns_toMatrix (key i)

/-- **The task's cipher is the original one under the relabelling.**  For every eleven round keys and
every block, the rounds of `task.py` return the block that the rounds of `std_bk.py` return for the
relabelled keys and block, relabelled; and both key schedules return the same round keys. -/
theorem task_relabels_stdBk :
    (∀ (key : ℕ → Block) (m : List Byte), m.length = 16 →
      ∃ c, StdBk.roundPart ((keyMatrices key).map swapColumns) (swapBlock m) = .ok c ∧
        roundPart (keyMatrices key) m = .ok (swapBlock c)) ∧
    ∀ k : List Byte, k.length = 16 →
      ∃ keys, expandKey k = .ok keys ∧ StdBk.expandKey k = .ok keys := by
  constructor
  · intro key m hm
    refine ⟨_, (swapColumns_keyMatrices key).symm ▸
      stdBk_roundPart_eq (fun i => relabel (key i)) (length_swapBlock hm), ?_⟩
    have hcarry := congrArg (fun π : Equiv.Perm Block => π (relabel (blockOf m)))
      (relabel_cipherWith key)
    simp only [Equiv.Perm.mul_apply, relabel_relabel] at hcarry
    rw [roundPart_eq key hm, blockOf_swapBlock hm, swapBlock_bytesOf, hcarry]
  · intro k hk
    have hsize : k.length ∈ keySize := by simp [keySize, hk]
    exact ⟨_, expandKey_eq hsize, (StdBk.expandKey_eq k).trans (expandKey_eq hsize)⟩

/-- The bytes from 0 to 15, under round keys all bytes of which differ: the relabelling moves the block
and the keys. -/
theorem task_relabels_stdBk_counting :
    let key : ℕ → Block := fun i a b => BitVec.ofNat 8 (16 * i + 4 * a.val + b.val)
    let m : List Byte := (List.range 16).map (BitVec.ofNat 8)
    swapBlock m ≠ m ∧ (keyMatrices key).map swapColumns ≠ keyMatrices key ∧
      ∃ c, StdBk.roundPart ((keyMatrices key).map swapColumns) (swapBlock m) = .ok c ∧
        roundPart (keyMatrices key) m = .ok (swapBlock c) := by
  intro key m
  refine ⟨by decide, ?_, task_relabels_stdBk.1 key m (by decide)⟩
  intro hsame
  exact absurd (congrArg List.head? hsame) (by decide)

end Whuctf.MiaES
