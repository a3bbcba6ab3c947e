import Mathlib.Algebra.Order.Group.Nat
import Whuctf.MiaES.Layers

/-!
# The key schedule of miaES

The schedule is a recurrence on columns of four bytes: a column is the one `n` places back plus the
one before it, the latter first rotated, substituted and shifted by a round constant at multiples
of `n`, the length of the key in columns.  `expand_key` computes the first 44 columns, cut into
eleven round keys, for each of the three key sizes.

The source finds the end of its loop by counting words and the round constant by a counter of its own,
and it addresses the earlier words from the end of the list.  The recurrence has the index of the
column in place of all three.
-/

namespace Whuctf.MiaES

open Python

/-- `key_size` of `std.py`: the lengths of a key in bytes. -/
def keySize : List ℕ := [16, 24, 32]

/-- The bytes `4 * j`, …, `4 * j + 3` of a byte string. -/
def columnAt (text : List Byte) (j : ℕ) : Column := fun r => text.getD (4 * j + r) 0

/-- A round constant, as the byte that the table of the source holds. -/
def rConByte (n : ℕ) : Byte := BitVec.ofNat 8 (rCon.getD n 0)

/-- What is added to the column `n` places back at a multiple `n * i` of the key's length. -/
def scheduleCore (c : Column) (i : ℕ) : Column := fun r =>
  if r = 0 then subByte (c 1) ^^^ rConByte i else subByte (c (r + 1))

/-- Column `j` of the key schedule, by the recurrence; the first columns are those of the key. -/
def scheduleColumn (key : List Byte) (j : ℕ) : Column :=
  let n := key.length / 4
  if _h : n = 0 ∨ j < n then columnAt key j
  else
    let last := scheduleColumn key (j - 1)
    let word : Column :=
      if j % n = 0 then scheduleCore last (j / n)
      else if key.length = 32 ∧ j % n = 4 then fun r => subByte (last r)
      else last
    fun r => word r ^^^ scheduleColumn key (j - n) r
termination_by j
decreasing_by all_goals omega

/-- The round key number `i`: four columns of the schedule, from `4 * i` on. -/
def roundKey (key : List Byte) (i : ℕ) : Block := fun r => scheduleColumn key (4 * i + r)

/-- The first `len` columns of the schedule as the source holds them. -/
def scheduleColumns (key : List Byte) (len : ℕ) : Matrix :=
  (List.range len).map fun j => Column.toInts (scheduleColumn key j)

section Expand

variable {key : List Byte}

lemma length_scheduleColumns (len : ℕ) : (scheduleColumns key len).length = len := by
  simp [scheduleColumns]

lemma scheduleColumns_succ (len : ℕ) :
    scheduleColumns key (len + 1) =
      scheduleColumns key len ++ [Column.toInts (scheduleColumn key len)] := by
  simp [scheduleColumns, List.range_succ]

lemma getItem_scheduleColumns_neg (key : List Byte) {len i : ℕ} (hpos : 0 < i) (hi : i ≤ len) :
    getItem (scheduleColumns key len) (-(i : ℤ)) =
      .ok (Column.toInts (scheduleColumn key (len - i))) := by
  rw [getItem_neg hpos (by rwa [length_scheduleColumns])]
  simp [scheduleColumns]

lemma bytes2matrix_eq (text : List Byte) {n : ℕ} (h : text.length = 4 * n) :
    bytes2matrix text = (List.range n).map fun j => Column.toInts (columnAt text j) := by
  have hcount : (4 * n + 4 - 1) / 4 = n := by omega
  rw [bytes2matrix, rangeStep, List.map_map, h, hcount]
  apply List.map_congr_left
  intro j hj
  have hj : j < n := List.mem_range.mp hj
  apply List.ext_getElem
  · simp [ints, slice, Column.toInts, h]
    omega
  · intro r hr _
    have hr4 : r < 4 := by simp [ints, slice, h] at hr; omega
    simp only [Function.comp_apply, ints, slice, Column.toInts, columnAt, List.getElem_map,
      List.getElem_take, List.getElem_drop, List.getElem_ofFn, mul_comm j 4]
    rw [List.getD_eq_getElem _ _ (by omega)]

lemma subWord (c : Column) :
    (Column.toInts c).mapM (fun b : ℕ => getItem sBox b) = .ok (Column.toInts fun r => subByte (c r)) :=
  subColumn (π := sBoxPerm) getItem_sBox c

lemma getItem_rCon : ∀ i < 32, getItem rCon (i : ℕ) = .ok (rConByte i).toNat := by decide +kernel

lemma zipWith_toInts (c d : Column) :
    List.zipWith (· ^^^ ·) (Column.toInts c) (Column.toInts d) =
      Column.toInts fun r => c r ^^^ d r := by
  simp [Column.toInts, BitVec.toNat_xor]

lemma coreWord_eq (c : Column) {i : ℕ} (hi : i < 32) :
    coreWord (Column.toInts c) i = .ok (Column.toInts (scheduleCore c i)) := by
  have hpop : popFront (Column.toInts c) =
      .ok ((c 0).toNat, [(c 1).toNat, (c 2).toNat, (c 3).toNat]) := rfl
  have hrotate : [(c 1).toNat, (c 2).toNat, (c 3).toNat] ++ [(c 0).toNat] =
      Column.toInts fun r => c (r + 1) := rfl
  have hfirst : getItem (Column.toInts fun r => subByte (c (r + 1))) 0 =
      .ok (subByte (c 1)).toNat := rfl
  unfold coreWord
  simp only [hpop, ok_bind, hrotate, subWord, hfirst, getItem_rCon i hi, ← BitVec.toNat_xor]
  rfl

/-- The loop body appends the next column.  Its counter `i` is the number of multiples of `n` among
the columns so far, which is the index of the round constant. -/
lemma expandWord_eq (hkey : key.length ∈ keySize) {len i : ℕ} (hlen : key.length / 4 ≤ len)
    (hlt : len < 44) (hi : i = (len + key.length / 4 - 1) / (key.length / 4)) :
    expandWord key (scheduleColumns key len) i =
      .ok (Column.toInts (scheduleColumn key len),
        (len + 1 + key.length / 4 - 1) / (key.length / 4)) := by
  have hsize : key.length = 16 ∨ key.length = 24 ∨ key.length = 32 := by
    simpa [keySize] using hkey
  have hlast : getItem (scheduleColumns key len) (-1) =
      .ok (Column.toInts (scheduleColumn key (len - 1))) :=
    getItem_scheduleColumns_neg key (i := 1) one_pos (by omega)
  have hprevious := getItem_scheduleColumns_neg key (i := key.length / 4) (by omega) hlen
  have hposition : mod (scheduleColumns key len).length (key.length / 4) =
      .ok (len % (key.length / 4)) := by
    rw [mod, length_scheduleColumns, if_neg (by omega)]
  have hcolumn : ¬(key.length / 4 = 0 ∨ len < key.length / 4) := by omega
  unfold expandWord
  rw [scheduleColumn, dif_neg hcolumn]
  simp only [hlast, hprevious, hposition, ok_bind]
  by_cases hmultiple : len % (key.length / 4) = 0
  · have hindex : i = len / (key.length / 4) := by
      rcases hsize with h | h | h <;> rw [h] at hi hmultiple ⊢ <;> omega
    have hnext : i + 1 = (len + 1 + key.length / 4 - 1) / (key.length / 4) := by
      rcases hsize with h | h | h <;> rw [h] at hi hmultiple ⊢ <;> omega
    have hbound : i < 32 := by
      rcases hsize with h | h | h <;> rw [h] at hi <;> omega
    simp only [if_pos hmultiple, coreWord_eq _ hbound, ok_bind, pure_bind, zipWith_toInts, hnext,
      ← hindex]
    rfl
  · have hnext : i = (len + 1 + key.length / 4 - 1) / (key.length / 4) := by
      rcases hsize with h | h | h <;> rw [h] at hi hmultiple ⊢ <;> omega
    by_cases hfourth : key.length = 32 ∧ len % (key.length / 4) = 4
    · simp only [if_neg hmultiple, if_pos hfourth, subWord, ok_bind, pure_bind, zipWith_toInts, ← hnext]
      rfl
    · simp only [if_neg hmultiple, if_neg hfourth, pure_bind, zipWith_toInts, ← hnext]
      rfl

/-- The loop of `expand_key` stops with the 44 columns, from any number of columns with which a turn
can start. -/
lemma expandLoop_eq (hkey : key.length ∈ keySize) {len i : ℕ} (hlen : key.length / 4 ≤ len)
    (hle : len ≤ 44) (hi : i = (len + key.length / 4 - 1) / (key.length / 4)) :
    expandLoop key (scheduleColumns key len) i = .ok (scheduleColumns key 44) := by
  induction hrest : 44 - len generalizing len i with
  | zero =>
    obtain rfl : len = 44 := by omega
    rw [expandLoop, if_neg (by simp [length_scheduleColumns, nRounds])]
    rfl
  | succ rest ih =>
    have hlt : len < 44 := by omega
    rw [expandLoop, if_pos (by simpa [length_scheduleColumns, nRounds] using hlt),
      expandWord_eq hkey hlen hlt hi, ok_bind]
    show expandLoop key (scheduleColumns key len ++ [_]) _ = _
    rw [← scheduleColumns_succ]
    exact ih (by omega) (by omega) rfl (by omega)

lemma slice_scheduleColumns {i : ℕ} (hi : i < 11) :
    slice (scheduleColumns key 44) (4 * i) (4 * (i + 1)) = (roundKey key i).toMatrix := by
  apply List.ext_getElem
  · simp [slice, scheduleColumns, Block.toMatrix]
    omega
  · intro r hr _
    simp only [slice, scheduleColumns, Block.toMatrix, roundKey, List.getElem_take,
      List.getElem_drop, List.getElem_map, List.getElem_range, List.getElem_ofFn]

/-- `expand_key` returns the eleven round keys of the schedule, for every key of one of the three
sizes. -/
lemma expandKey_eq (hkey : key.length ∈ keySize) :
    expandKey key = .ok ((List.range 11).map fun i => (roundKey key i).toMatrix) := by
  have hsize : key.length = 16 ∨ key.length = 24 ∨ key.length = 32 := by
    simpa [keySize] using hkey
  have hcolumns : bytes2matrix key = scheduleColumns key (key.length / 4) := by
    rw [bytes2matrix_eq key (n := key.length / 4) (by omega)]
    apply List.map_congr_left
    intro j hj
    rw [scheduleColumn, dif_pos (Or.inr (List.mem_range.mp hj))]
  have hone : 1 = (key.length / 4 + key.length / 4 - 1) / (key.length / 4) := by
    rcases hsize with h | h | h <;> rw [h]
  unfold expandKey
  rw [hcolumns, expandLoop_eq hkey le_rfl (by omega) hone, ok_bind]
  simp only [xorKeyMatrices_eq, length_scheduleColumns]
  refine congrArg Except.ok ?_
  apply List.map_congr_left
  intro i hi
  exact slice_scheduleColumns (List.mem_range.mp hi)

end Expand

end Whuctf.MiaES
