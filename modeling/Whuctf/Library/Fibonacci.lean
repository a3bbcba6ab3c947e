import Mathlib.Data.Matrix.Mul
import Mathlib.Data.Nat.Fib.Basic
import Mathlib.LinearAlgebra.Matrix.Notation

/-!
# The matrix form of the Fibonacci numbers

Powers of the matrix with rows `1 1` and `1 0` hold consecutive Fibonacci numbers.  Over `ℕ` the
lower right entry is the number before, which is `1` for the zeroth power.

The number before is a sequence of its own, since there is no natural number before the zeroth one to
index it by.  It satisfies the same recurrence, which is what a multiplication by the matrix does to
all four entries.
-/

namespace Whuctf.Fibonacci

/-- The Fibonacci number before the `n`-th, with one in front of zero, so that the recurrence holds
there as well. -/
def fibPrev : ℕ → ℕ
  | 0 => 1
  | n + 1 => Nat.fib n

@[simp] lemma fibPrev_succ (n : ℕ) : fibPrev (n + 1) = Nat.fib n := rfl

lemma fib_add_fibPrev (n : ℕ) : Nat.fib n + fibPrev n = Nat.fib (n + 1) := by
  cases n with
  | zero => rfl
  | succ n => rw [fibPrev_succ, Nat.fib_add_two, Nat.add_comm]

/-- The matrix whose powers hold the Fibonacci numbers. -/
def fibMatrix : Matrix (Fin 2) (Fin 2) ℕ := !![1, 1; 1, 0]

lemma fibMatrix_pow (n : ℕ) :
    fibMatrix ^ n = !![Nat.fib (n + 1), Nat.fib n; Nat.fib n, fibPrev n] := by
  induction n with
  | zero => simp [fibPrev, Matrix.one_fin_two]
  | succ n ih =>
      have htwo : Nat.fib (n + 1 + 1) = Nat.fib (n + 1) + Nat.fib n := by
        rw [Nat.fib_add_two, Nat.add_comm]
      rw [pow_succ, ih, fibMatrix, Matrix.mul_fin_two, htwo, fibPrev_succ]
      simp [fib_add_fibPrev]

end Whuctf.Fibonacci
