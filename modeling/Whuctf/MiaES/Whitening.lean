import Mathlib.Data.LawfulXor.Basic
import Whuctf.MiaES.Fips

/-!
# The whitening of miaES has no effect

`task.py` and `std.py` mean to mix a constant into every byte of the round keys and of the state after
each key addition.  Their helper `xor_key_list` walks over the nested list and assigns each result to
its loop variable, so the list keeps what it held: the helper does what it is for only where there is
nothing to do (`whitening_iff`).  The round keys are those of AES-128, and the key addition is the plain
one.

How far the helper gets does not depend on what is in the list, so the statement is about lists of any
nesting.  What was meant is `whitened`, and a list on which the two agree is one that whitening would
leave as it is.
-/

namespace Whuctf.MiaES

open Python

/-! ## What the helper is for

The purpose is read off its name, its constant and its two calls: the integers of a nested list, each
with the constant mixed in.  A list that this leaves alone has no integers, or the constant is zero. -/

/-- Every integer of a nested list, at every depth, with `key` mixed in. -/
def whitened : List Item → ℤ → List Item
  | [], _ => []
  | .list items :: rest, key => .list (whitened items key) :: whitened rest key
  | .int i :: rest, key => .int (Int.xor i key) :: whitened rest key

/-- The integers of a nested list, at every depth and in the order in which they are written. -/
def leaves : List Item → List ℤ
  | [] => []
  | .list items :: rest => leaves items ++ leaves rest
  | .int i :: rest => i :: leaves rest

lemma int_xor_eq_left_iff (i key : ℤ) : Int.xor i key = i ↔ key = 0 := by
  cases i with
  | ofNat m =>
      cases key with
      | ofNat n =>
          show Int.ofNat (m ^^^ n) = Int.ofNat m ↔ Int.ofNat n = Int.ofNat 0
          rw [Int.ofNat.injEq, Int.ofNat.injEq, xor_left_eq_self_iff]
      -- a negative key changes the sign
      | negSucc n => simp [Int.xor]
  | negSucc m =>
      cases key with
      | ofNat n =>
          show Int.negSucc (m ^^^ n) = Int.negSucc m ↔ Int.ofNat n = Int.ofNat 0
          rw [Int.negSucc.injEq, Int.ofNat.injEq, xor_left_eq_self_iff]
      | negSucc n => simp [Int.xor]

/-- Whitening leaves a list as it is only if it has nothing to mix, or nothing to mix it into. -/
lemma whitened_eq_self_iff : ∀ (items : List Item) (key : ℤ),
    whitened items key = items ↔ key = 0 ∨ leaves items = []
  | [], key => by simp [whitened, leaves]
  | .int i :: rest, key => by
      rw [whitened, List.cons.injEq, Item.int.injEq, int_xor_eq_left_iff,
        whitened_eq_self_iff rest key]
      simp only [leaves, reduceCtorEq, or_false]
      exact and_iff_left_of_imp Or.inl
  | .list items :: rest, key => by
      rw [whitened, List.cons.injEq, Item.list.injEq, whitened_eq_self_iff items key,
        whitened_eq_self_iff rest key, leaves, List.append_eq_nil_iff, ← or_and_left]

/-! ## What the helper does -/

/-- The round key that a whitening by `0xcf` would leave. -/
noncomputable def whitenedRoundKey (key : Fin 16 → Byte) (i : ℕ) : Block := fun c r =>
  Aes128.roundKey key i c r ^^^ 0xcf#8

lemma expandKey_eq_aes128 (key : Fin 16 → Byte) :
    expandKey (List.ofFn key) =
      .ok ((List.range 11).map fun i => Block.toMatrix (Aes128.roundKey key i)) := by
  rw [expandKey_eq (by simp [keySize])]
  apply congrArg Except.ok
  apply List.map_congr_left
  intro i hi
  rw [roundKey_eq key (List.mem_range.mp hi)]

lemma toMatrix_injective : Function.Injective Block.toMatrix := by
  intro a b h
  funext i j
  have hrow := congrFun (List.ofFn_injective h) i
  exact BitVec.eq_of_toNat_eq (congrFun (List.ofFn_injective hrow) j)

/-- **Whitening.**  `xor_key_list` mixes its constant into the integers of a list exactly when the
constant is zero or there are none.  Of no key does `expand_key` return the whitened round keys, which
are those of AES-128, and on no matrices is the constant of `add_round_key` mixed in. -/
theorem whitening_iff (arr : List Item) (K : ℤ) (key : Fin 16 → Byte) (s k : Fin 4 → Fin 4 → ℕ) :
    (xorKeyList arr K = whitened arr K ↔ K = 0 ∨ leaves arr = []) ∧
    (expandKey (List.ofFn key) =
        .ok ((List.range 11).map fun i => Block.toMatrix (Aes128.roundKey key i)) ∧
      expandKey (List.ofFn key) ≠
        .ok ((List.range 11).map fun i => Block.toMatrix (whitenedRoundKey key i))) ∧
    addRoundKey (cells s) (cells k) = .ok (cells fun i j => s i j ^^^ k i j) ∧
      addRoundKey (cells s) (cells k) ≠ .ok (cells fun i j => s i j ^^^ k i j ^^^ 0xaa) := by
  refine ⟨?_, ⟨expandKey_eq_aes128 key, ?_⟩, addRoundKey_cells s k, ?_⟩
  · rw [xorKeyList_eq, eq_comm]
    exact whitened_eq_self_iff arr K
  · intro h
    rw [expandKey_eq_aes128] at h
    have hfirst : Block.toMatrix (Aes128.roundKey key 0) = Block.toMatrix (whitenedRoundKey key 0) :=
      (List.cons.inj (Except.ok.inj h)).1
    have hcell : Aes128.roundKey key 0 0 0 ^^^ 0xcf#8 = Aes128.roundKey key 0 0 0 :=
      (congrFun (congrFun (toMatrix_injective hfirst) 0) 0).symm
    exact absurd (xor_left_eq_self_iff.mp hcell) (by decide)
  · intro h
    rw [addRoundKey_cells] at h
    have hrow := congrFun (List.ofFn_injective (Except.ok.inj h)) 0
    have hcell : s 0 0 ^^^ k 0 0 ^^^ 0xaa = s 0 0 ^^^ k 0 0 :=
      (congrFun (List.ofFn_injective hrow) 0).symm
    exact absurd (xor_left_eq_self_iff.mp hcell) (by decide)

/-- The integer in `[[1]]` stays, because `^=` on the loop variable binds a new integer to that name
and leaves the list as it is. -/
theorem one_not_whitened :
    ¬∀ (arr : List Item) (key : ℤ), xorKeyList arr key = whitened arr key := by
  intro hclaim
  have hone := hclaim [.list [.int 1]] 0xcf
  rw [xorKeyList_eq, eq_comm, whitened_eq_self_iff] at hone
  simp [leaves] at hone

end Whuctf.MiaES
