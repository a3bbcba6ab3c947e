import Mathlib.Data.Fin.Tuple.Basic
import Mathlib.LinearAlgebra.Matrix.Block

/-!
# Bases of the lattice of the rows of a matrix

The integer combinations of the rows of a square matrix are a lattice.  Another matrix has a basis of
the same lattice in its rows when it is the product of a unimodular matrix with the first one.  Its rows
are then integer combinations of the rows of the first matrix, and where the determinant is not zero no
row is zero and no two rows are equal.

The matrices of subset sum problems are identity matrices with a border.

That is all that is known of the result of a lattice reduction: it is a basis of the same lattice, and
a good one.  What holds of every basis holds of the reduced one, whichever algorithm has found it.
-/

namespace Whuctf.IntegerBasis

open Matrix

variable {n : ℕ}

/-- The rows of `B` are a basis of the lattice of the rows of `A`. -/
def Rebases (B A : Matrix (Fin n) (Fin n) ℤ) : Prop :=
  ∃ U : Matrix (Fin n) (Fin n) ℤ, IsUnit U.det ∧ B = U * A

section Rebases

variable {A B : Matrix (Fin n) (Fin n) ℤ}

lemma Rebases.exists_combination (h : Rebases B A) (i : Fin n) :
    ∃ u : Fin n → ℤ, ∀ j, B i j = ∑ k, u k * A k j := by
  obtain ⟨U, -, rfl⟩ := h
  exact ⟨U i, fun j => mul_apply⟩

lemma Rebases.det_ne_zero (h : Rebases B A) (hA : A.det ≠ 0) : B.det ≠ 0 := by
  obtain ⟨U, hU, rfl⟩ := h
  rw [det_mul]
  exact mul_ne_zero hU.ne_zero hA

lemma Rebases.row_ne_zero (h : Rebases B A) (hA : A.det ≠ 0) (i : Fin n) : B i ≠ 0 := by
  intro hzero
  exact h.det_ne_zero hA (det_eq_zero_of_row_eq_zero i fun j => congrFun hzero j)

lemma Rebases.row_injective (h : Rebases B A) (hA : A.det ≠ 0) : Function.Injective B := by
  intro i j hij
  by_contra hne
  exact h.det_ne_zero hA (det_zero_of_row_eq hne hij)

end Rebases

/-- The identity matrix with one more column `right`, one more row `below`, and `corner` where these
meet. -/
def border (right below : Fin n → ℤ) (corner : ℤ) : Matrix (Fin (n + 1)) (Fin (n + 1)) ℤ :=
  Fin.lastCases (motive := fun _ => Fin (n + 1) → ℤ) (Fin.snoc (α := fun _ => ℤ) below corner)
    fun i => Fin.snoc (α := fun _ => ℤ) (Pi.single i 1) (right i)

section Border

variable {right below : Fin n → ℤ} {corner : ℤ}

@[simp] lemma border_castSucc_castSucc (i j : Fin n) :
    border right below corner i.castSucc j.castSucc = (Pi.single i 1 : Fin n → ℤ) j := by
  simp [border]

@[simp] lemma border_castSucc_last (i : Fin n) :
    border right below corner i.castSucc (Fin.last n) = right i := by
  simp [border]

@[simp] lemma border_last_castSucc (j : Fin n) :
    border right below corner (Fin.last n) j.castSucc = below j := by
  simp [border]

@[simp] lemma border_last_last :
    border right below corner (Fin.last n) (Fin.last n) = corner := by
  simp [border]

/-- The entries of a combination of the rows, before the border. -/
lemma sum_mul_border_castSucc (u : Fin (n + 1) → ℤ) (j : Fin n) :
    ∑ k, u k * border right below corner k j.castSucc = u j.castSucc + u (Fin.last n) * below j := by
  rw [Fin.sum_univ_castSucc]
  simp [Pi.single_apply]

/-- The entry of a combination of the rows in the border: the sum of the entries of `right` and the
corner, each with its factor. -/
lemma sum_mul_border_last (u : Fin (n + 1) → ℤ) :
    ∑ k, u k * border right below corner k (Fin.last n) =
      ∑ j, u j.castSucc * right j + u (Fin.last n) * corner := by
  rw [Fin.sum_univ_castSucc]
  simp

lemma det_border_right : (border right 0 corner).det = corner := by
  have htriangular : (border right 0 corner).IsUpperTriangular := by
    intro i j hlt
    cases i using Fin.lastCases with
    | last =>
      cases j using Fin.lastCases with
      | last => exact absurd hlt (lt_irrefl _)
      | cast j => exact border_last_castSucc j
    | cast i =>
      cases j using Fin.lastCases with
      | last => exact absurd hlt (Fin.castSucc_lt_last i).not_gt
      | cast j =>
        have hne : j ≠ i := by
          rintro rfl
          exact lt_irrefl _ hlt
        rw [border_castSucc_castSucc, Pi.single_eq_of_ne hne]
  rw [det_of_isUpperTriangular htriangular, Fin.prod_univ_castSucc]
  simp

lemma det_border_below : (border 0 below corner).det = corner := by
  have htranspose : (border 0 below corner).transpose = border below 0 corner := by
    ext i j
    cases i using Fin.lastCases <;> cases j using Fin.lastCases <;>
      simp [Pi.single_apply, eq_comm]
  rw [← det_transpose, htranspose, det_border_right]

end Border

end Whuctf.IntegerBasis
