import Mathlib.Data.BitVec
import Mathlib.Tactic.Linarith

/-!
# Word arithmetic with and without wrapping

`WordOps` is the sum and the product of machine words in a monad.  A program written over it runs
in two ways: with `wrapping` operations it is the machine's program, and with `checked` operations
it fails at the first result that does not fit a word.  Both are `Exact` where the results fit, so
a proof about exact operations gives the value of the program and the absence of overflow at once.

Programs that reduce every result modulo `M` keep to the residues of `M`, and the reduced sum and
product of residues are again residues (`Exact.residue_add`, `Exact.residue_mul`).

The program is written once, over the monad.  What it computes with exact arithmetic is then proved
once as well, for the machine's operations and the checked ones together.
-/

namespace Whuctf

/-- The sum and the product of words, as effects of a monad. -/
structure WordOps (w : ℕ) (m : Type → Type) where
  add : BitVec w → BitVec w → m (BitVec w)
  mul : BitVec w → BitVec w → m (BitVec w)

namespace WordOps

variable {w : ℕ} {m : Type → Type}

/-- The machine's operations: results are taken modulo `2 ^ w`. -/
def wrapping : WordOps w Id where
  add a b := a + b
  mul a b := a * b

/-- Operations that refuse a result outside the word, so that a computation that returns has not
wrapped around. -/
def checked : WordOps w Option where
  add a b := if a.toNat + b.toNat < 2 ^ w then some (a + b) else none
  mul a b := if a.toNat * b.toNat < 2 ^ w then some (a * b) else none

/-- Operations that return the result whenever it fits the word. -/
structure Exact [Monad m] (ops : WordOps w m) : Prop where
  add : ∀ a b, a.toNat + b.toNat < 2 ^ w → ops.add a b = pure (a + b)
  mul : ∀ a b, a.toNat * b.toNat < 2 ^ w → ops.mul a b = pure (a * b)

lemma wrapping_exact : Exact (wrapping : WordOps w Id) :=
  ⟨fun _ _ _ => rfl, fun _ _ _ => rfl⟩

lemma checked_exact : Exact (checked : WordOps w Option) :=
  ⟨fun _ _ h => if_pos h, fun _ _ h => if_pos h⟩

/-! ## Residues -/

/-- The word that holds the residue of `v` modulo `M`. -/
def residue (M : BitVec w) (v : ℕ) : BitVec w := BitVec.ofNat w (v % M.toNat)

section Residue

variable {M : BitVec w}

lemma toNat_residue (hpos : 0 < M.toNat) (v : ℕ) : (residue M v).toNat = v % M.toNat := by
  rw [residue, BitVec.toNat_ofNat]
  exact Nat.mod_eq_of_lt (lt_trans (Nat.mod_lt v hpos) M.isLt)

lemma residue_zero : residue M 0 = 0#w := by
  rw [residue, Nat.zero_mod]

lemma residue_one (hM : 2 ≤ M.toNat) : residue M 1 = 1#w := by
  rw [residue, Nat.mod_eq_of_lt hM]

variable [Monad m] [LawfulMonad m] {ops : WordOps w m}

/-- The reduced sum of two residues is the residue of the sum. -/
lemma Exact.residue_add (h : ops.Exact) (hpos : 0 < M.toNat) (hM : 2 * M.toNat ≤ 2 ^ w)
    (u v : ℕ) :
    (do let s ← ops.add (residue M u) (residue M v); pure (s % M)) =
      pure (residue M (u + v)) := by
  have hu := Nat.mod_lt u hpos
  have hv := Nat.mod_lt v hpos
  have hfit : (residue M u).toNat + (residue M v).toNat < 2 ^ w := by
    rw [toNat_residue hpos, toNat_residue hpos]
    omega
  rw [h.add _ _ hfit, pure_bind]
  refine congrArg pure (BitVec.eq_of_toNat_eq ?_)
  rw [BitVec.toNat_umod, BitVec.toNat_add, Nat.mod_eq_of_lt hfit, toNat_residue hpos,
    toNat_residue hpos, toNat_residue hpos, ← Nat.add_mod]

/-- The reduced product of two residues is the residue of the product. -/
lemma Exact.residue_mul (h : ops.Exact) (hpos : 0 < M.toNat)
    (hM : M.toNat * M.toNat ≤ 2 ^ w) (u v : ℕ) :
    (do let p ← ops.mul (residue M u) (residue M v); pure (p % M)) =
      pure (residue M (u * v)) := by
  have hu := Nat.mod_lt u hpos
  have hv := Nat.mod_lt v hpos
  have hfit : (residue M u).toNat * (residue M v).toNat < 2 ^ w := by
    rw [toNat_residue hpos, toNat_residue hpos]
    exact lt_of_lt_of_le (Nat.mul_lt_mul'' hu hv) hM
  rw [h.mul _ _ hfit, pure_bind]
  refine congrArg pure (BitVec.eq_of_toNat_eq ?_)
  rw [BitVec.toNat_umod, BitVec.toNat_mul, Nat.mod_eq_of_lt hfit, toNat_residue hpos,
    toNat_residue hpos, toNat_residue hpos, ← Nat.mul_mod]

end Residue

end WordOps

end Whuctf
