import Whuctf.Library.Fibonacci
import Whuctf.Library.Words

/-!
# The Fibonacci generator and its fast replacement

`magic` and `get` of `fibs.cpp`, and `fib` of the write-up.  The coroutine is the list of the values
it yields (`Coroutine.lean` runs it), and the loop of `get` keeps the last of them; `fib` raises a
matrix of reduced words to a power by squaring.

Both are written over `WordOps`, so that a run with checked operations tells whether any sum or
product leaves 64 bits.  The coroutine starts at index `x - 2`, skips one of the two ones at the
start of the sequence, and so ends at the Fibonacci number of index `x` (`get_eq`).  The
matrices of `fib` stay powers of the Fibonacci matrix (`powLoop_reduced`), whose corner entry is the
same number.
-/

namespace Whuctf.Fibs

open WordOps Fibonacci

variable {m : Type → Type} [Monad m]

/-- `size_t`, 64 bits wide. -/
abbrev Size := BitVec 64

/-- `MOD`, which is `2 ^ 32 - 1`; a product of two residues is below `2 ^ 64`, so it fits a word. -/
def modulus : Size := 0xFFFFFFFF#64

/-! ## The coroutine -/

/-- `while (index > 0)` of `magic`: the values it yields, each the sum of the two before it, reduced. -/
def magicLoop (o : WordOps 64 m) (mod : Size) : ℕ → Size → Size → m (List Size)
  | 0, _, _ => pure []
  | index + 1, previous, current => do
      let tmp ← (do let s ← o.add previous current; pure (s % mod))
      let rest ← magicLoop o mod index current tmp
      pure (tmp :: rest)

/-- `magic`: the values the coroutine yields, in order; the first two are not reduced. -/
def magic (o : WordOps 64 m) (index mod : Size) : m (List Size) :=
  if index = 0#64 then pure [0#64]
  else if index = 1#64 then pure [0#64, 1#64]
  else do
    let rest ← magicLoop o mod index.toNat 1#64 1#64
    pure (0#64 :: 1#64 :: rest)

/-- `get`.  `value` is not initialised, so without a yield there is no result. -/
def get (o : WordOps 64 m) (x : Size) : m (Option Size) := do
  let yields ← magic o (x - 2#64) modulus
  pure yields.getLast?

/-! ## The write-up's matrices -/

/-- `operator+` of `mint`: the sum of two residues in a word, reduced by `update`. -/
def mintAdd (o : WordOps 64 m) (a b : Size) : m Size := do
  let s ← o.add a b
  pure (s % modulus)

/-- `operator*` of `mint`: the product of two residues, reduced. -/
def mintMul (o : WordOps 64 m) (a b : Size) : m Size := do
  let p ← o.mul a b
  pure (p % modulus)

/-- `matrix<mint<unsigned long long, MOD>>`, of two rows and two columns. -/
abbrev MintMatrix := Matrix (Fin 2) (Fin 2) Size

/-- The innermost loop of `operator*`: `result[i][j] += a[i][k] * b[k][j]` for both `k`, from a
default `mint`. -/
def matrixEntry (o : WordOps 64 m) (a b : MintMatrix) (i j : Fin 2) : m Size := do
  let p₀ ← mintMul o (a i 0) (b 0 j)
  let r₀ ← mintAdd o 0#64 p₀
  let p₁ ← mintMul o (a i 1) (b 1 j)
  mintAdd o r₀ p₁

/-- `operator*` of `matrix`, entry by entry, each of them a sum of two products of residues. -/
def matrixMul (o : WordOps 64 m) (a b : MintMatrix) : m MintMatrix := do
  let r₀₀ ← matrixEntry o a b 0 0
  let r₀₁ ← matrixEntry o a b 0 1
  let r₁₀ ← matrixEntry o a b 1 0
  let r₁₁ ← matrixEntry o a b 1 1
  pure !![r₀₀, r₀₁; r₁₀, r₁₁]

/-- `while (n > 0)` of `fib`: what it leaves in `identity`, which is multiplied for each binary digit
one of `n`. -/
def powLoop (o : WordOps 64 m) (n : ℕ) (identity a : MintMatrix) : m MintMatrix := do
  if n = 0 then pure identity
  else
    let identity ← if n % 2 ≠ 0 then matrixMul o identity a else pure identity
    let a ← matrixMul o a a
    powLoop o (n / 2) identity a
  termination_by n

/-- `fib`: the first two arguments are returned as they are, and for others an entry of a power of the
Fibonacci matrix, whose exponent is one less. -/
def fib (o : WordOps 64 m) (n : Size) : m Size :=
  if n = 0#64 then pure 0#64
  else if n = 1#64 then pure 1#64
  else do
    let identity ← powLoop o (n - 1#64).toNat !![1#64, 0#64; 0#64, 1#64] !![1#64, 1#64; 1#64, 0#64]
    pure (identity 0 0)

/-! ## The coroutine ends at the Fibonacci number -/

lemma modulus_pos : 0 < modulus.toNat := by decide

lemma modulus_mul_modulus : modulus.toNat * modulus.toNat ≤ 2 ^ 64 := by decide

section Exact

variable [LawfulMonad m] {o : WordOps 64 m} (ho : o.Exact)
include ho

/-- The loop yields the Fibonacci numbers that follow the two it starts from, reduced. -/
lemma magicLoop_eq {M : Size} (hpos : 0 < M.toNat) (hM : 2 * M.toNat ≤ 2 ^ 64) (index k : ℕ) :
    magicLoop o M index (residue M (Nat.fib k)) (residue M (Nat.fib (k + 1))) =
      pure ((List.range' (k + 2) index).map fun i => residue M (Nat.fib i)) := by
  induction index generalizing k with
  | zero => rfl
  | succ index ih =>
      rw [magicLoop, ho.residue_add hpos hM, ← Nat.fib_add_two, pure_bind, ih (k + 1), pure_bind,
        List.range'_succ, List.map_cons]

/-- From index 2 on, the coroutine yields `0`, `1` and the numbers from index 3 up to two more than
its index. -/
lemma magic_eq {index M : Size} (hindex : 2 ≤ index.toNat) (hM : 2 ≤ M.toNat)
    (hfit : 2 * M.toNat ≤ 2 ^ 64) :
    magic o index M =
      pure (0#64 :: 1#64 :: (List.range' 3 index.toNat).map fun i => residue M (Nat.fib i)) := by
  have h0 : index ≠ 0#64 := by
    rintro rfl
    simp at hindex
  have h1 : index ≠ 1#64 := by
    rintro rfl
    simp at hindex
  have hloop := magicLoop_eq ho (by omega : 0 < M.toNat) hfit index.toNat 1
  rw [Nat.fib_one, Nat.fib_two, residue_one hM] at hloop
  rw [magic, if_neg h0, if_neg h1, hloop, pure_bind]

/-- `get` returns the Fibonacci number of its argument, reduced, when the index that it gives the
coroutine has not wrapped around and is one of the branch with the loop. -/
lemma get_eq {x : Size} (hx : 4 ≤ x.toNat) :
    get o x = pure (some (residue modulus (Nat.fib x.toNat))) := by
  have hindex : (x - 2#64).toNat = x.toNat - 2 :=
    BitVec.toNat_sub_of_le (by simpa [BitVec.le_def] using by omega)
  obtain ⟨n, hn⟩ : ∃ n, x.toNat = n + 4 := ⟨x.toNat - 4, by omega⟩
  rw [get, magic_eq ho (by omega) (by decide) (by decide), pure_bind, hindex, hn]
  refine congrArg pure ?_
  rw [show n + 4 - 2 = n + 1 + 1 by omega, List.range'_concat, List.map_append, List.map_singleton,
    show 3 + 1 * (n + 1) = n + 4 by omega, ← List.cons_append, ← List.cons_append,
    List.getLast?_concat]

/-! ## The matrices are powers of the Fibonacci matrix -/

/-- The words of a matrix of numbers, reduced: what the matrix of the program is, in terms of Fibonacci
numbers. -/
def reduced (a : Matrix (Fin 2) (Fin 2) ℕ) : MintMatrix := a.map (residue modulus)

lemma mintAdd_residue (u v : ℕ) :
    mintAdd o (residue modulus u) (residue modulus v) = pure (residue modulus (u + v)) :=
  ho.residue_add modulus_pos (by decide) u v

lemma mintMul_residue (u v : ℕ) :
    mintMul o (residue modulus u) (residue modulus v) = pure (residue modulus (u * v)) :=
  ho.residue_mul modulus_pos modulus_mul_modulus u v

lemma matrixEntry_reduced (a b : Matrix (Fin 2) (Fin 2) ℕ) (i j : Fin 2) :
    matrixEntry o (reduced a) (reduced b) i j = pure (residue modulus ((a * b) i j)) := by
  have hzero : 0#64 = residue modulus 0 := residue_zero.symm
  simp only [matrixEntry, reduced, Matrix.map_apply, hzero, mintMul_residue ho,
    mintAdd_residue ho, pure_bind, Matrix.mul_apply, Fin.sum_univ_two, Nat.zero_add]

lemma matrixMul_reduced (a b : Matrix (Fin 2) (Fin 2) ℕ) :
    matrixMul o (reduced a) (reduced b) = pure (reduced (a * b)) := by
  simp only [matrixMul, matrixEntry_reduced ho, pure_bind]
  exact congrArg pure (Matrix.eta_fin_two (reduced (a * b))).symm

/-- The loop multiplies `identity` by the power of `a`: `identity * a ^ n` never changes. -/
lemma powLoop_reduced (n : ℕ) (c a : Matrix (Fin 2) (Fin 2) ℕ) :
    powLoop o n (reduced c) (reduced a) = pure (reduced (c * a ^ n)) := by
  induction n using Nat.strong_induction_on generalizing c a with
  | _ n ih =>
      rw [powLoop]
      by_cases h0 : n = 0
      · simp [h0]
      have hhalf : n / 2 < n := Nat.div_lt_self (by omega) (by decide)
      by_cases hodd : n % 2 ≠ 0
      · have hn : n = 2 * (n / 2) + 1 := by omega
        have hpow : c * a * (a * a) ^ (n / 2) = c * a ^ n := by
          conv_rhs => rw [hn, pow_succ', pow_mul, sq, ← mul_assoc]
        simp only [if_neg h0, if_pos hodd, matrixMul_reduced ho, pure_bind, ih _ hhalf, hpow]
      · have hn : n = 2 * (n / 2) := by omega
        have hpow : c * (a * a) ^ (n / 2) = c * a ^ n := by
          conv_rhs => rw [hn, pow_mul, sq]
        simp only [if_neg h0, if_neg hodd, matrixMul_reduced ho, pure_bind, ih _ hhalf, hpow]

/-- `fib` returns the Fibonacci number of its argument, reduced, for every argument there is. -/
lemma fib_eq (n : Size) : fib o n = pure (residue modulus (Nat.fib n.toNat)) := by
  rw [fib]
  split
  · rename_i h0
    simp [h0, residue]
  split
  · rename_i h1
    simp [h1, residue, modulus]
  rename_i h0 h1
  have hpos : 1 ≤ n.toNat := Nat.one_le_iff_ne_zero.mpr fun h => h0 (BitVec.eq_of_toNat_eq h)
  have hprev : (n - 1#64).toNat = n.toNat - 1 :=
    BitVec.toNat_sub_of_le (by simpa [BitVec.le_def] using hpos)
  have hone : (!![1#64, 0#64; 0#64, 1#64] : MintMatrix) = reduced 1 := by decide
  have hfib : (!![1#64, 1#64; 1#64, 0#64] : MintMatrix) = reduced fibMatrix := by decide
  rw [hone, hfib, powLoop_reduced ho, pure_bind, one_mul, fibMatrix_pow, hprev,
    Nat.sub_add_cancel hpos]
  rfl

end Exact

/-- **The generator and the write-up agree.**  From index 4 on, the coroutine loop returns the
Fibonacci number modulo `2 ^ 32 - 1`, which is what the matrix solution returns; and neither meets
a sum or product outside 64 bits. -/
theorem get_eq_fib (x : Size) (hx : 4 ≤ x.toNat) :
    ∃ v : Size, v.toNat = Nat.fib x.toNat % (2 ^ 32 - 1) ∧
      get wrapping x = some v ∧ fib wrapping x = v ∧
      get checked x = some (some v) ∧ fib checked x = some v :=
  ⟨residue modulus (Nat.fib x.toNat), toNat_residue modulus_pos _, get_eq wrapping_exact hx,
    fib_eq wrapping_exact x, get_eq checked_exact hx, fib_eq checked_exact x⟩

/-- The smallest argument: the coroutine makes two passes and yields `0, 1, 2, 3`. -/
theorem get_eq_fib_four :
    ∃ v : Size, v.toNat = Nat.fib (4#64 : Size).toNat % (2 ^ 32 - 1) ∧
      get wrapping 4#64 = some v ∧ fib wrapping 4#64 = v ∧
      get checked 4#64 = some (some v) ∧ fib checked 4#64 = some v :=
  get_eq_fib 4#64 (by decide)

end Whuctf.Fibs
