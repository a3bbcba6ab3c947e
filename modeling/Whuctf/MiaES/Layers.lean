import Whuctf.MiaES.Block
import Whuctf.MiaES.Cipher

/-!
# The functions of miaES compute the layers of the cipher

On matrices that represent blocks of bytes, each function of the source succeeds and computes the
permutation of the abstract cipher; in particular none of its indices is out of range.

The refinements of the single layers are composed by the rules of `Library/Refinement`, so a round and
a loop of rounds need no more than the list of their layers.  Only `add_round_key` is also evaluated on
integers that are no bytes, where the helper's constant would show.

A block is represented by the lists it is in the source (`Block.toMatrix`), and a function refines a
permutation when it returns the representative of the image of each block.
-/

namespace Whuctf.MiaES

open Python

/-- A column as the source holds it, a list of integers. -/
def Column.toInts (c : Column) : List ℕ := List.ofFn fun j => (c j).toNat

/-- A block as the source holds it: four lists of four integers. -/
def Block.toMatrix (b : Block) : Matrix := List.ofFn fun i => Column.toInts (b i)

/-- A matrix of four rows of four integers, by a function of the two indices. -/
def cells (f : Fin 4 → Fin 4 → ℕ) : Matrix := List.ofFn fun i => List.ofFn (f i)

lemma toMatrix_eq_cells (b : Block) : b.toMatrix = cells fun i j => (b i j).toNat := rfl

/-! ## The helper that leaves its argument alone -/

lemma xorKeyList_eq : ∀ (items : List Item) (key : ℤ), xorKeyList items key = items
  | [], _ => by rw [xorKeyList]
  | .int i :: rest, key => by rw [xorKeyList, xorKeyList_eq rest key]
  | .list items :: rest, key => by
      rw [xorKeyList, xorKeyList_eq items key, xorKeyList_eq rest key]

lemma Item.ints_map (row : List ℕ) : Item.ints (row.map fun e : ℕ => .int e) = row := by
  induction row with
  | nil => rfl
  | cons e rest ih => simp [Item.ints, ih]

lemma Item.toMatrix_ofMatrix (matrix : Matrix) : Item.toMatrix (Item.ofMatrix matrix) = matrix := by
  induction matrix with
  | nil => rfl
  | cons row rest ih =>
    show Item.ints (row.map fun e : ℕ => .int e) :: Item.toMatrix (Item.ofMatrix rest) = row :: rest
    rw [Item.ints_map, ih]

lemma xorKeyMatrix_eq (matrix : Matrix) (key : ℤ) : xorKeyMatrix matrix key = matrix := by
  rw [xorKeyMatrix, xorKeyList_eq, Item.toMatrix_ofMatrix]

lemma xorKeyMatrices_eq (matrices : List Matrix) (key : ℤ) :
    xorKeyMatrices matrices key = matrices := by
  rw [xorKeyMatrices, xorKeyList_eq, List.map_map]
  exact List.map_id'' Item.toMatrix_ofMatrix matrices

/-! ## Substitution and shifting -/

/-- A table of 256 bytes is indexed by a byte. -/
lemma getItem_bytes {table : List ℕ} (hlength : table.length = 256)
    (hbytes : table.all (· < 256) = true) (b : Byte) :
    getItem table b.toNat = .ok (BitVec.ofNat 8 (table.getD b.toNat 0)).toNat := by
  have hb : b.toNat < table.length := by
    rw [hlength]
    exact b.isLt
  rw [getItem_ofNat hb, List.getD_eq_getElem _ _ hb, BitVec.toNat_ofNat,
    Nat.mod_eq_of_lt (getElem_lt_of_all hbytes hb)]

lemma getItem_sBox (b : Byte) : getItem sBox b.toNat = .ok (subByte b).toNat :=
  getItem_bytes length_sBox sBox_bytes b

lemma getItem_invSBox (b : Byte) : getItem invSBox b.toNat = .ok (invSubByte b).toNat :=
  getItem_bytes length_invSBox invSBox_bytes b

lemma subColumn {sbox : List ℕ} {π : Equiv.Perm Byte}
    (hsbox : ∀ b : Byte, getItem sbox b.toNat = .ok (π b).toNat) (c : Column) :
    (Column.toInts c).mapM (fun e : ℕ => getItem sbox e) = .ok (Column.toInts fun j => π (c j)) := by
  simp only [Column.toInts, List.ofFn_succ, List.ofFn_zero, List.mapM_cons, List.mapM_nil, hsbox]
  rfl

/-- `sub_bytes` with a table that holds a permutation of the bytes. -/
lemma subBytes_refines {sbox : List ℕ} {π : Equiv.Perm Byte}
    (hsbox : ∀ b : Byte, getItem sbox b.toNat = .ok (π b).toNat) :
    Refines Block.toMatrix (fun s => subBytes s sbox) (mapCells π) := by
  intro b
  simp only [subBytes, Block.toMatrix, List.ofFn_succ, List.ofFn_zero, List.mapM_cons,
    List.mapM_nil, subColumn hsbox]
  rfl

/-! ## Cells

The tuple assignments of the source read all cells on their right before they write the first on their
left.  On blocks such an assignment is one definition, and a rotation is three of them. -/

lemma getItem_ofFn {α : Type*} {n : ℕ} (f : Fin n → α) (i : Fin n) :
    getItem (List.ofFn f) (i : ℕ) = .ok (f i) := by
  rw [getItem_ofNat (by simp), List.getElem_ofFn]

lemma setItem_ofFn {α : Type*} {n : ℕ} (f : Fin n → α) (i : Fin n) (v : α) :
    setItem (List.ofFn f) (i : ℕ) v = .ok (List.ofFn (Function.update f i v)) := by
  have hset : (List.ofFn f).set i v = List.ofFn (Function.update f i v) := by
    apply List.ext_getElem
    · simp
    · intro j hj _
      rw [List.getElem_set, List.getElem_ofFn, List.getElem_ofFn, Function.update_apply]
      simp only [Fin.ext_iff, eq_comm]
  rw [setItem_ofNat (by simp), hset]

/-- The block with the byte `v` in the cell `c`. -/
def Block.setCell (b : Block) (c : Fin 4 × Fin 4) (v : Byte) : Block :=
  Function.update b c.1 (Function.update (b c.1) c.2 v)

lemma getCell_cells (f : Fin 4 → Fin 4 → ℕ) (i j : Fin 4) :
    getCell (cells f) (i : ℕ) (j : ℕ) = .ok (f i j) := by
  unfold getCell cells
  rw [getItem_ofFn]
  exact getItem_ofFn (f i) j

lemma getCell_toMatrix (b : Block) (i j : Fin 4) :
    getCell b.toMatrix (i : ℕ) (j : ℕ) = .ok (b i j).toNat :=
  getCell_cells (fun i j => (b i j).toNat) i j

lemma setCell_toMatrix (b : Block) (c : Fin 4 × Fin 4) (v : Byte) :
    setCell b.toMatrix (c.1 : ℕ) (c.2 : ℕ) v.toNat = .ok (b.setCell c v).toMatrix := by
  have hrow : setItem (Column.toInts (b c.1)) (c.2 : ℕ) v.toNat =
      .ok (Column.toInts (Function.update (b c.1) c.2 v)) := by
    unfold Column.toInts
    rw [setItem_ofFn]
    congr 2
    funext j
    exact (Function.apply_update (fun _ => BitVec.toNat) (b c.1) c.2 v j).symm
  have hblock : (fun i => Column.toInts (b.setCell c v i)) =
      Function.update (fun i => Column.toInts (b i)) c.1
        (Column.toInts (Function.update (b c.1) c.2 v)) := by
    funext i
    exact Function.apply_update (fun _ => Column.toInts) b c.1 _ i
  unfold setCell
  rw [Block.toMatrix, getItem_ofFn, Block.toMatrix, hblock, ← setItem_ofFn]
  show (setItem (Column.toInts (b c.1)) (c.2 : ℕ) v.toNat >>= fun row => _) = _
  rw [hrow]
  rfl

/-- A tuple assignment to the cells `targets` from the cells `sources`. -/
def Block.assign (b : Block) (targets sources : List (Fin 4 × Fin 4)) : Block :=
  (targets.zip (sources.map fun c => b c.1 c.2)).foldl (fun b c => b.setCell c.1 c.2) b

/-- The indices of a cell as the source writes them. -/
def cellIndex (c : Fin 4 × Fin 4) : ℤ × ℤ := ((c.1 : ℕ), (c.2 : ℕ))

lemma assignCells_toMatrix (targets sources : List (Fin 4 × Fin 4)) :
    Refines Block.toMatrix
      (fun s => assignCells s (targets.map cellIndex) (sources.map cellIndex))
      (fun b => b.assign targets sources) := by
  intro b
  have hread : (sources.map cellIndex).mapM (fun c => getCell b.toMatrix c.1 c.2) =
      .ok ((sources.map fun c => b c.1 c.2).map BitVec.toNat) := by
    rw [List.mapM_map, List.map_map]
    exact mapM_ok fun c _ => getCell_toMatrix b c.1 c.2
  have hwrite : ∀ (cells : List ((Fin 4 × Fin 4) × Byte)) (b : Block),
      (cells.map fun c => (cellIndex c.1, c.2.toNat)).foldlM
          (fun s c => setCell s c.1.1 c.1.2 c.2) b.toMatrix =
        .ok (cells.foldl (fun b c => b.setCell c.1 c.2) b).toMatrix := by
    intro cells
    induction cells with
    | nil => intro b; rfl
    | cons c rest ih =>
      intro b
      rw [List.map_cons, List.foldlM_cons]
      show (setCell b.toMatrix _ _ _ >>= fun s => _) = _
      rw [cellIndex, setCell_toMatrix]
      exact ih (b.setCell c.1 c.2)
  show ((sources.map cellIndex).mapM (fun c => getCell b.toMatrix c.1 c.2) >>= fun values => _) = _
  rw [hread]
  show ((targets.map cellIndex).zip _).foldlM _ b.toMatrix = _
  rw [List.zip_map]
  exact hwrite (targets.zip (sources.map fun c => b c.1 c.2)) b

/-- The targets of the assignments to column `j` of the state. -/
def columnCells (j : Fin 4) : List (Fin 4 × Fin 4) := [(0, j), (1, j), (2, j), (3, j)]

lemma shiftRows_refines : Refines Block.toMatrix shiftRows shiftBlock := by
  have hfirst := assignCells_toMatrix (columnCells 1) [(3, 1), (0, 1), (1, 1), (2, 1)]
  have hsecond := assignCells_toMatrix (columnCells 2) [(2, 2), (3, 2), (0, 2), (1, 2)]
  have hthird := assignCells_toMatrix (columnCells 3) [(1, 3), (2, 3), (3, 3), (0, 3)]
  intro b
  refine (hfirst.comp (hsecond.comp hthird) b).trans ?_
  congr 2
  funext i j
  fin_cases i <;> fin_cases j <;> rfl

lemma invShiftRows_refines :
    Refines Block.toMatrix invShiftRows (shiftBlock⁻¹ : Equiv.Perm Block) := by
  have hfirst := assignCells_toMatrix (columnCells 1) [(1, 1), (2, 1), (3, 1), (0, 1)]
  have hsecond := assignCells_toMatrix (columnCells 2) [(2, 2), (3, 2), (0, 2), (1, 2)]
  have hthird := assignCells_toMatrix (columnCells 3) [(3, 3), (0, 3), (1, 3), (2, 3)]
  intro b
  refine (hfirst.comp (hsecond.comp hthird) b).trans ?_
  congr 2
  funext i j
  fin_cases i <;> fin_cases j <;> rfl

/-! ## Mixing -/

lemma toNat_xtimeByte : ∀ a : Byte, xtime a.toNat = (xtimeByte a).toNat := by decide +kernel

lemma mixSingleColumn_eq (a b c d : ℕ) :
    mixSingleColumn [a, b, c, d] = .ok
      [a ^^^ (a ^^^ b ^^^ c ^^^ d ^^^ xtime (a ^^^ b)), b ^^^ (a ^^^ b ^^^ c ^^^ d ^^^ xtime (b ^^^ c)),
        c ^^^ (a ^^^ b ^^^ c ^^^ d ^^^ xtime (c ^^^ d)),
        d ^^^ (a ^^^ b ^^^ c ^^^ d ^^^ xtime (d ^^^ a))] := rfl

lemma mixSingleColumn_toInts (c : Column) :
    mixSingleColumn (Column.toInts c) = .ok (Column.toInts (mixColumn c)) := by
  have hc : Column.toInts c = [(c 0).toNat, (c 1).toNat, (c 2).toNat, (c 3).toNat] := rfl
  rw [hc, mixSingleColumn_eq]
  simp only [← BitVec.toNat_xor, toNat_xtimeByte]
  rfl

/-- Row `i` of a block replaced, as an assignment to the list does it. -/
lemma setRow_toMatrix (b : Block) (i : Fin 4) (c : Column) :
    setItem b.toMatrix (i : ℕ) (Column.toInts c) = .ok (Block.toMatrix (Function.update b i c)) := by
  unfold Block.toMatrix
  rw [setItem_ofFn]
  congr 2
  funext j
  exact (Function.apply_update (fun _ => Column.toInts) b i c j).symm

/-- A loop over the rows that replaces each row by its image under `g`. -/
lemma rowLoop_refines {f : Matrix → ℕ → Except PyError Matrix} {g : Column → Column}
    (hf : ∀ i : Fin 4, Refines Block.toMatrix (fun s => f s (i : ℕ))
      (fun b => Function.update b i (g (b i)))) :
    Refines Block.toMatrix (fun s => (List.range 4).foldlM f s) (fun b i => g (b i)) := by
  intro b
  have hloop : (List.range 4).foldlM f b.toMatrix =
      (f b.toMatrix 0 >>= fun s => f s 1 >>= fun s => f s 2 >>= fun s => f s 3) := by
    show [0, 1, 2, 3].foldlM f b.toMatrix = _
    simp only [List.foldlM_cons, List.foldlM_nil, bind_pure]
  have hrows := ((hf 0).comp ((hf 1).comp ((hf 2).comp (hf 3)))) b
  show (List.range 4).foldlM f b.toMatrix = _
  rw [hloop]
  apply hrows.trans
  congr 2
  funext i
  fin_cases i <;> rfl

lemma mixRow_refines (i : Fin 4) :
    Refines Block.toMatrix (fun s => mixRow s (i : ℕ))
      (fun b => Function.update b i (mixColumn (b i))) := by
  intro b
  have hget : getItem b.toMatrix (i : ℕ) = .ok (Column.toInts (b i)) :=
    getItem_ofFn (fun i => Column.toInts (b i)) i
  simp only [mixRow, hget, ok_bind, mixSingleColumn_toInts]
  exact setRow_toMatrix b i (mixColumn (b i))

lemma mixColumns_refines : Refines Block.toMatrix mixColumns mixBlock :=
  rowLoop_refines mixRow_refines

lemma invMixRow_refines (i : Fin 4) :
    Refines Block.toMatrix (fun s => invMixRow s (i : ℕ))
      (fun b => Function.update b i (premixColumn (b i))) := by
  intro b
  have hget0 (b : Block) : getCell b.toMatrix (i : ℕ) 0 = .ok (b i 0).toNat := getCell_toMatrix b i 0
  have hget1 (b : Block) : getCell b.toMatrix (i : ℕ) 1 = .ok (b i 1).toNat := getCell_toMatrix b i 1
  have hget2 (b : Block) : getCell b.toMatrix (i : ℕ) 2 = .ok (b i 2).toNat := getCell_toMatrix b i 2
  have hget3 (b : Block) : getCell b.toMatrix (i : ℕ) 3 = .ok (b i 3).toNat := getCell_toMatrix b i 3
  have hset0 (b : Block) (v : Byte) :
      setCell b.toMatrix (i : ℕ) 0 v.toNat = .ok (b.setCell (i, 0) v).toMatrix :=
    setCell_toMatrix b (i, 0) v
  have hset1 (b : Block) (v : Byte) :
      setCell b.toMatrix (i : ℕ) 1 v.toNat = .ok (b.setCell (i, 1) v).toMatrix :=
    setCell_toMatrix b (i, 1) v
  have hset2 (b : Block) (v : Byte) :
      setCell b.toMatrix (i : ℕ) 2 v.toNat = .ok (b.setCell (i, 2) v).toMatrix :=
    setCell_toMatrix b (i, 2) v
  have hset3 (b : Block) (v : Byte) :
      setCell b.toMatrix (i : ℕ) 3 v.toNat = .ok (b.setCell (i, 3) v).toMatrix :=
    setCell_toMatrix b (i, 3) v
  simp only [invMixRow, hget0, hget1, hget2, hget3, hset0, hset1, hset2, hset3, ok_bind,
    ← BitVec.toNat_xor, toNat_xtimeByte]
  congr 2
  funext i' j
  by_cases hi : i' = i
  · subst hi
    fin_cases j <;> simp [Block.setCell, premixColumn, BitVec.xor_comm]
  · simp [Block.setCell, hi]

lemma invMixColumns_refines :
    Refines Block.toMatrix invMixColumns (mixBlock⁻¹ : Equiv.Perm Block) :=
  (rowLoop_refines invMixRow_refines).comp mixColumns_refines

/-! ## Round keys -/

/-- On any integers, the round key is added cell by cell, and nothing else. -/
lemma addRoundKey_cells (s k : Fin 4 → Fin 4 → ℕ) :
    addRoundKey (cells s) (cells k) = .ok (cells fun i j => s i j ^^^ k i j) := by
  have hcells : (List.range 4).mapM (fun i : ℕ => (List.range 4).mapM fun j : ℕ => do
      return (← getCell (cells s) i j) ^^^ (← getCell (cells k) i j)) =
        .ok (cells fun i j => s i j ^^^ k i j) := by
    apply mapM_range_ok
    intro i
    apply mapM_range_ok
    intro j
    rw [getCell_cells, getCell_cells, ok_bind, ok_bind]
    rfl
  have hlength (f : Fin 4 → Fin 4 → ℕ) : (cells f).length = 4 := by simp [cells]
  simp only [addRoundKey, hlength, ne_eq, not_true_eq_false, if_false, xorKeyMatrix_eq]
  rw [hcells]
  rfl

lemma addRoundKey_refines (k : Block) :
    Refines Block.toMatrix (fun s => addRoundKey s k.toMatrix) (addKey k) := by
  intro b
  simp only [toMatrix_eq_cells, addRoundKey_cells, ← BitVec.toNat_xor]
  rfl

end Whuctf.MiaES
