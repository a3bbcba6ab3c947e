import Mathlib.Data.Fintype.Basic
import Mathlib.Data.List.GetD
import Mathlib.Logic.Equiv.Fin.Basic
import Mathlib.Tactic.FinCases
import Whuctf.Library.Memory
import Whuctf.Library.Refinement
import Whuctf.MiaES.Tables

/-!
# The block cipher of miaES on blocks of bytes

What the layers of the cipher do, on 4×4 blocks of bytes: each is a permutation of the blocks, and the
cipher under a family of round keys is their composition.  Deciphering is the inverse permutation, so
the rows of lemmas here are the inverses of the single layers, up to the one that takes an argument:
`inv_mix_columns` undoes `mix_columns` because mixing four times is the identity.

Tables are looked up at bytes and indices are counted modulo four, so nothing here can raise.  That the
functions of the source compute these permutations on their lists is shown in `Layers`, and every
comparison of the scripts is made with the permutations.
-/

namespace Whuctf.MiaES

/-- One row of the state, a column of AES: the source keeps the columns of the standard as the inner
lists. -/
abbrev Column := Fin 4 → Byte

/-- The cipher's state: `b i j` is `s[i][j]`. -/
abbrev Block := Fin 4 → Column

/-! ## Substitution -/

/-- The S-box on bytes: the entry of the table, which the permutation below shows to be a byte. -/
def subByte (b : Byte) : Byte := BitVec.ofNat 8 (sBox.getD b.toNat 0)

/-- The inverse S-box on bytes, from the second table of the source. -/
def invSubByte (b : Byte) : Byte := BitVec.ofNat 8 (invSBox.getD b.toNat 0)

lemma length_sBox : sBox.length = 256 := by decide +kernel

lemma length_invSBox : invSBox.length = 256 := by decide +kernel

lemma sBox_bytes : sBox.all (· < 256) = true := by decide +kernel

lemma invSBox_bytes : invSBox.all (· < 256) = true := by decide +kernel

/-- An entry of a table of bytes is below 256, which a test of the whole table shows. -/
lemma getElem_lt_of_all {table : List ℕ} (hbytes : table.all (· < 256) = true) {i : ℕ}
    (hi : i < table.length) : table[i] < 256 := by
  simpa using List.all_eq_true.mp hbytes _ (List.getElem_mem hi)

/-- The inverse table sends the entries of the S-box to their places. -/
lemma map_invSBox_sBox : sBox.map (fun v => invSBox.getD v 0) = List.range 256 := by
  decide +kernel

lemma invSubByte_subByte (b : Byte) : invSubByte (subByte b) = b := by
  have hb : b.toNat < sBox.length := by
    rw [length_sBox]
    exact b.isLt
  have hentry := congrArg (·[b.toNat]?) map_invSBox_sBox
  simp only [List.getElem?_map, List.getElem?_eq_getElem hb, Option.map_some] at hentry
  rw [List.getElem?_range b.isLt, Option.some.injEq] at hentry
  rw [invSubByte, subByte, List.getD_eq_getElem _ _ hb, BitVec.toNat_ofNat,
    Nat.mod_eq_of_lt (getElem_lt_of_all sBox_bytes hb), hentry, BitVec.ofNat_toNat,
    BitVec.setWidth_eq]

/-- On the finitely many bytes one composition gives the other. -/
lemma subByte_invSubByte (b : Byte) : subByte (invSubByte b) = b := by
  have hleft : Function.LeftInverse invSubByte subByte := invSubByte_subByte
  have hfinite : Finite Byte := Finite.of_injective BitVec.toFin fun _ _ => BitVec.eq_of_toFin_eq
  exact hleft.rightInverse_of_surjective (Finite.surjective_of_injective hleft.injective) b

/-- The S-box is a permutation of the bytes, with the inverse table as its inverse. -/
def sBoxPerm : Equiv.Perm Byte := ⟨subByte, invSubByte, invSubByte_subByte, subByte_invSubByte⟩

/-- A permutation of the bytes applied to every cell. -/
def mapCells (π : Equiv.Perm Byte) : Equiv.Perm Block :=
  Equiv.piCongrRight fun _ => Equiv.piCongrRight fun _ => π

lemma mapCells_inv (π : Equiv.Perm Byte) : (mapCells π)⁻¹ = mapCells π⁻¹ := rfl

/-! ## Shifting -/

/-- Column `j` of the state rotated downwards by `j`, which is `shift_rows` on blocks. -/
def shiftBlock : Equiv.Perm Block where
  toFun b i j := b (i - j) j
  invFun b i j := b (i + j) j
  left_inv b := by
    funext i j
    simp
  right_inv b := by
    funext i j
    simp

/-! ## Mixing

Mixing a column adds to each byte the sum of the column and `xtime` of two neighbours.  The first half
of its inverse does the like with bytes that lie opposite, and mixing twice is just that. -/

/-- `xtime` on bytes: multiplication by `x` in the field of the cipher. -/
def xtimeByte (a : Byte) : Byte := if a.msb then (a <<< 1) ^^^ 0x1B#8 else a <<< 1

lemma xor_left_comm (a b c : Byte) : a ^^^ (b ^^^ c) = b ^^^ (a ^^^ c) := by
  rw [← BitVec.xor_assoc, BitVec.xor_comm a b, BitVec.xor_assoc]

lemma xor_cancel (a b : Byte) : a ^^^ (a ^^^ b) = b := by
  rw [← BitVec.xor_assoc, BitVec.xor_self, BitVec.zero_xor]

lemma xtimeByte_xor : ∀ a b, xtimeByte (a ^^^ b) = xtimeByte a ^^^ xtimeByte b := by
  intro a b
  unfold xtimeByte
  rw [BitVec.msb_xor]
  cases a.msb <;> cases b.msb <;>
    simp [BitVec.shiftLeft_xor_distrib, BitVec.xor_assoc, BitVec.xor_comm, xor_left_comm]

/-- The sum of the bytes of a column, which `mix_single_column` adds to each of them. -/
def columnSum (c : Column) : Byte := c 0 ^^^ c 1 ^^^ c 2 ^^^ c 3

/-- `mix_single_column`: each byte plus the sum of all plus `xtime` of the sum with its neighbour. -/
def mixColumn (c : Column) : Column := fun j =>
  c j ^^^ (columnSum c ^^^ xtimeByte (c j ^^^ c (j + 1)))

/-- The first half of `inv_mix_columns`: `xtime` twice of the sum with the byte opposite. -/
def premixColumn (c : Column) : Column := fun j => c j ^^^ xtimeByte (xtimeByte (c j ^^^ c (j + 2)))

lemma columnSum_mixColumn (c : Column) : columnSum (mixColumn c) = columnSum c := by
  unfold mixColumn
  generalize hsum : columnSum c = t
  rw [← hsum]
  simp only [columnSum, zero_add, Fin.reduceAdd, xtimeByte_xor, BitVec.xor_assoc, BitVec.xor_comm,
    xor_left_comm, xor_cancel, BitVec.xor_self, BitVec.zero_xor]

lemma mixColumn_xor_next (c : Column) (j : Fin 4) :
    mixColumn c j ^^^ mixColumn c (j + 1) = c j ^^^ c (j + 1) ^^^ xtimeByte (c j ^^^ c (j + 2)) := by
  have hnext : j + 1 + 1 = j + 2 := by rw [add_assoc]; rfl
  simp only [mixColumn, hnext, xtimeByte_xor]
  simp only [BitVec.xor_assoc, xor_left_comm, xor_cancel]

/-- Mixing twice is the first half of the inverse, so the whole of it is mixing once more. -/
lemma mixColumn_mixColumn (c : Column) : mixColumn (mixColumn c) = premixColumn c := by
  funext j
  have hsecond : mixColumn (mixColumn c) j =
      mixColumn c j ^^^ (columnSum c ^^^
        xtimeByte (c j ^^^ c (j + 1) ^^^ xtimeByte (c j ^^^ c (j + 2)))) := by
    rw [← mixColumn_xor_next, ← columnSum_mixColumn c]
    rfl
  rw [hsecond]
  unfold mixColumn premixColumn
  generalize columnSum c = t
  simp only [xtimeByte_xor]
  simp only [BitVec.xor_assoc, xor_left_comm, xor_cancel]

/-- The first half of the inverse is its own inverse. -/
lemma premixColumn_premixColumn (c : Column) : premixColumn (premixColumn c) = c := by
  funext j
  have hopposite : j + 2 + 2 = j := by
    rw [add_assoc]
    exact add_zero j
  simp only [premixColumn, hopposite, xtimeByte_xor]
  simp only [BitVec.xor_assoc, BitVec.xor_comm, xor_left_comm, BitVec.xor_self, BitVec.zero_xor,
    BitVec.xor_zero]

/-- `inv_mix_columns` on a column: its first half and then the mixing. -/
def invMixColumn (c : Column) : Column := mixColumn (premixColumn c)

lemma invMixColumn_mixColumn (c : Column) : invMixColumn (mixColumn c) = c := by
  rw [invMixColumn, ← mixColumn_mixColumn, mixColumn_mixColumn c, mixColumn_mixColumn,
    premixColumn_premixColumn]

lemma mixColumn_invMixColumn (c : Column) : mixColumn (invMixColumn c) = c := by
  rw [invMixColumn, mixColumn_mixColumn, premixColumn_premixColumn]

/-- Mixing is a permutation of the columns, since four mixings change nothing. -/
def mixColumnPerm : Equiv.Perm Column :=
  ⟨mixColumn, invMixColumn, invMixColumn_mixColumn, mixColumn_invMixColumn⟩

/-- `mix_columns` on blocks, column by column. -/
def mixBlock : Equiv.Perm Block := Equiv.piCongrRight fun _ => mixColumnPerm

/-! ## The cipher -/

/-- `add_round_key` on blocks: its own inverse. -/
def addKey (k : Block) : Equiv.Perm Block where
  toFun b i j := b i j ^^^ k i j
  invFun b i j := b i j ^^^ k i j
  left_inv b := by
    funext i j
    simp only [BitVec.xor_assoc, BitVec.xor_self, BitVec.xor_zero]
  right_inv b := by
    funext i j
    simp only [BitVec.xor_assoc, BitVec.xor_self, BitVec.xor_zero]

lemma addKey_inv (k : Block) : (addKey k)⁻¹ = addKey k := rfl

/-- One of the rounds in the middle of `encrypt`: substitution, rotation, mixing, and the round key. -/
def middleRound (k : Block) : Equiv.Perm Block :=
  addKey k * (mixBlock * (shiftBlock * mapCells sBoxPerm))

/-- The last round, which does not mix, as in AES. -/
def lastRound (k : Block) : Equiv.Perm Block :=
  addKey k * (shiftBlock * mapCells sBoxPerm)

/-- The cipher under the round keys `key 0`, …, `key 10`. -/
def cipher (key : ℕ → Block) : Equiv.Perm Block :=
  lastRound (key 10) * (permSeq (fun i => middleRound (key i)) (List.range' 1 9) * addKey (key 0))

end Whuctf.MiaES
