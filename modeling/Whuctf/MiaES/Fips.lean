import Whuctf.Library.Aes128
import Whuctf.MiaES.StdBk

/-!
# The original cipher is AES-128

`encrypt` of `std_bk.py` computes the cipher of FIPS 197 (`encrypt_eq_aes128`).  The state of the
program is the standard's transposed: a list of columns, `s[c][r]` being byte `r` of column `c`.

The literal S-box holds the inverses of the field under the affine map (`sBox_eq_subByte`), the short
form of `mix_single_column` is the matrix of `MixColumns` (`mixColumns_transpose`), and the literal
round constants are powers of the root, so the program's columns are the standard's words
(`keyExpansion_eq`).
-/

namespace Whuctf.MiaES

open Python

/-! ## Substitution

The table is compared with the field on bytes: the entry at `b`, taken back through the affine map, is
a byte whose product with `b` is one.  Zero has no inverse and is looked at on its own. -/

/-- The affine map of the S-box backwards, made of rotations and a constant. -/
def unaffine (x : Byte) : Byte :=
  x.rotateRight 2 ^^^ x.rotateRight 5 ^^^ x.rotateRight 7 ^^^ 0x05#8

lemma affine_unaffine : ∀ x, Aes128.affine (unaffine x) = x := by decide +kernel

/-- The table holds inverses, behind the affine map: what it has for a byte times the byte is one. -/
lemma mulByte_unaffine_subByte :
    ∀ b, b ≠ 0#8 → Gf256.mulByte b (unaffine (subByte b)) = 1#8 := by decide +kernel

/-- The literal S-box is the standard's, which is defined by inverses in the field. -/
lemma sBox_eq_subByte (b : Byte) : Aes128.sBox b = subByte b := by
  by_cases hb : b = 0#8
  · rw [hb, Aes128.sBox_zero]
    decide
  · rw [Aes128.sBox_of_mulByte (mulByte_unaffine_subByte b hb), affine_unaffine]

/-! ## The layers -/

/-- The standard's state: row, then column, where the source has the columns as its rows. -/
def transpose (b : Block) : Aes128.State := fun r c => b c r

lemma subBytes_transpose (b : Block) :
    Aes128.subBytes (transpose b) = transpose (mapCells sBoxPerm b) := by
  funext r c
  exact sBox_eq_subByte (b c r)

lemma shiftRows_transpose (b : Block) :
    Aes128.shiftRows (transpose b) = transpose ((shiftBlock⁻¹ : Equiv.Perm Block) b) := rfl

lemma addRoundKey_transpose (b k : Block) :
    Aes128.addRoundKey (transpose b) k = transpose (addKey k b) := rfl

/-- The sum of a column, from any of its bytes on. -/
lemma columnSum_eq (c : Column) (r : Fin 4) :
    columnSum c = c r ^^^ (c (r + 1) ^^^ (c (r + 2) ^^^ c (r + 3))) := by
  fin_cases r
  · show c 0 ^^^ c 1 ^^^ c 2 ^^^ c 3 = c 0 ^^^ (c 1 ^^^ (c 2 ^^^ c 3))
    ac_rfl
  · show c 0 ^^^ c 1 ^^^ c 2 ^^^ c 3 = c 1 ^^^ (c 2 ^^^ (c 3 ^^^ c 0))
    ac_rfl
  · show c 0 ^^^ c 1 ^^^ c 2 ^^^ c 3 = c 2 ^^^ (c 3 ^^^ (c 0 ^^^ c 1))
    ac_rfl
  · show c 0 ^^^ c 1 ^^^ c 2 ^^^ c 3 = c 3 ^^^ (c 0 ^^^ (c 1 ^^^ c 2))
    ac_rfl

/-- The short form of `mix_single_column` is the matrix product, on each column of the standard. -/
lemma mixColumns_transpose (b : Block) :
    Aes128.mixColumns (transpose b) = transpose (mixBlock b) := by
  funext r c
  have hx : ∀ a, Gf256.xtime a = xtimeByte a := fun _ => rfl
  have hmix : transpose (mixBlock b) r c =
      b c r ^^^ (columnSum (b c) ^^^ xtimeByte (b c r ^^^ b c (r + 1))) := rfl
  rw [Aes128.mixColumns_eq, hmix, columnSum_eq (b c) r, xtimeByte_xor]
  simp only [transpose, hx]
  simp only [BitVec.xor_assoc, BitVec.xor_comm, xor_left_comm, xor_cancel]

/-! ## The key schedule -/

/-- The literal round constants are powers of the root, for the rounds that there are. -/
lemma rConByte_eq : ∀ i < 11, 0 < i → rConByte i = Gf256.xtime^[i - 1] 1#8 := by decide

/-- The words of the standard are the columns of the program. -/
lemma keyExpansion_eq (key : Fin 16 → Byte) {j : ℕ} (hj : j < 44) :
    Aes128.keyExpansion key j = scheduleColumn (List.ofFn key) j := by
  induction j using Nat.strong_induction_on with
  | _ j ih =>
    have hlength : (List.ofFn key).length / 4 = 4 := by simp
    have hsize : ¬(List.ofFn key).length = 32 := by simp
    rw [Aes128.keyExpansion, scheduleColumn]
    simp only [hlength]
    by_cases h : j < 4
    · rw [dif_pos h, dif_pos (Or.inr h)]
      funext r
      rw [columnAt, List.getD_eq_getElem _ _ (by rw [List.length_ofFn]; omega), List.getElem_ofFn]
    · rw [dif_neg h, dif_neg (by omega), ih (j - 1) (by omega) (by omega),
        ih (j - 4) (by omega) (by omega)]
      funext r
      rw [BitVec.xor_comm]
      congr 1
      by_cases hmultiple : j % 4 = 0
      · rw [if_pos hmultiple, if_pos hmultiple, Aes128.rcon_eq, scheduleCore]
        by_cases hr : r = 0
        · subst hr
          rw [if_pos rfl, if_pos rfl, rConByte_eq _ (by omega) (by omega)]
          exact congrArg (· ^^^ _) (sBox_eq_subByte _)
        · rw [if_neg hr, if_neg hr, BitVec.xor_zero]
          exact sBox_eq_subByte _
      · rw [if_neg hmultiple, if_neg hmultiple, if_neg fun hboth => hsize hboth.1]

lemma roundKey_eq (key : Fin 16 → Byte) {n : ℕ} (hn : n < 11) :
    Aes128.roundKey key n = roundKey (List.ofFn key) n := by
  funext c
  exact keyExpansion_eq key (by omega)

/-! ## The cipher -/

/-- A round of the standard on the transposed state is the transposed round of the source, with the
same round key. -/
lemma round_transpose (key : Fin 16 → Byte) (b : Block) {n : ℕ} (hn : n < 11) :
    Aes128.round key (transpose b) n =
      transpose ((addKey (roundKey (List.ofFn key) n) *
        (mixBlock * (shiftBlock⁻¹ * mapCells sBoxPerm)) : Equiv.Perm Block) b) := by
  rw [Aes128.round, subBytes_transpose, shiftRows_transpose, mixColumns_transpose, roundKey_eq key hn,
    addRoundKey_transpose]
  rfl

/-- The rounds of the standard on the transposed state, one after the other, are those of the source. -/
lemma rounds_transpose (key : Fin 16 → Byte) (rounds : List ℕ) (hrounds : ∀ n ∈ rounds, n < 11)
    (b : Block) :
    rounds.foldl (Aes128.round key) (transpose b) =
      transpose (permSeq (fun n => addKey (roundKey (List.ofFn key) n) *
        (mixBlock * (shiftBlock⁻¹ * mapCells sBoxPerm))) rounds b) := by
  rw [permSeq_apply]
  induction rounds generalizing b with
  | nil => rfl
  | cons n rest ih =>
    rw [List.foldl_cons, List.foldl_cons, round_transpose key b (hrounds n List.mem_cons_self)]
    exact ih (fun n' hn' => hrounds n' (List.mem_cons_of_mem n hn')) _

lemma load_eq (block : Fin 16 → Byte) :
    Aes128.load block = transpose (blockOf (List.ofFn block)) := by
  funext r c
  rw [transpose, blockOf, columnAt, List.getD_eq_getElem _ _ (by rw [List.length_ofFn]; omega),
    List.getElem_ofFn]
  rfl

lemma store_eq (b : Block) : List.ofFn (Aes128.store (transpose b)) = bytesOf b := rfl

/-- **AES-128.**  For every key and every block of sixteen bytes, `encrypt` of `std_bk.py` returns the
output of the standard's cipher. -/
theorem encrypt_eq_aes128 (key block : Fin 16 → Byte) :
    StdBk.encrypt (List.ofFn key) (List.ofFn block) =
      .ok (List.ofFn (Aes128.cipher key block)) := by
  have hrounds : ∀ n ∈ List.range' 1 9, n < 11 := by
    intro n hn
    simp only [List.mem_range'_1] at hn
    omega
  have hcipher : Aes128.cipher key block =
      Aes128.store (transpose (cipherWith shiftBlock⁻¹ (roundKey (List.ofFn key))
        (blockOf (List.ofFn block)))) := by
    simp only [Aes128.cipher]
    rw [load_eq, roundKey_eq key (by omega), addRoundKey_transpose, rounds_transpose key _ hrounds,
      subBytes_transpose, shiftRows_transpose, roundKey_eq key (by omega), addRoundKey_transpose,
      cipherWith, Equiv.Perm.mul_apply, Equiv.Perm.mul_apply, Equiv.Perm.mul_apply,
      Equiv.Perm.mul_apply]
  rw [stdBk_encrypt_eq (by simp [keySize]) (by simp), hcipher, store_eq]

end Whuctf.MiaES
