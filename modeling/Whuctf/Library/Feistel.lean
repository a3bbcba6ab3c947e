import Mathlib.Data.BitVec
import Mathlib.Logic.Equiv.Prod

/-!
# Whitened Feistel networks over machine words

A block is a pair of `w`-bit words.  One step of the network sends `(l, r)` to
`(r ^^^ F l ^^^ p, l)` for a round key `p` and an arbitrary round function `F`, and the
network mixes one key into the left word before the first step, and one after the last step
once the halves are exchanged.

The whole inversion argument is one conjugation: exchanging the halves turns a step into its
own inverse (`step_swap_step`), so a list of steps is undone by the reversed list between two
exchanges (`steps_reverse_swap`).  Nothing is asked of `F`, and the keys may be any list.
`networkPerm` packages the result: the network under the reversed key sequence is the inverse
permutation.
-/

namespace Whuctf.Feistel

variable {w : ℕ} (F : BitVec w → BitVec w)

/-- One step: mix the round function and the round key into the right word, then exchange. -/
def step (p : BitVec w) (x : BitVec w × BitVec w) : BitVec w × BitVec w :=
  (x.2 ^^^ F x.1 ^^^ p, x.1)

/-- One step for each key of the list, first key first. -/
def steps (ps : List (BitVec w)) (x : BitVec w × BitVec w) : BitVec w × BitVec w :=
  ps.foldl (fun y p => step F p y) x

/-- Mix a key into the left word, and leave the right one as it is. -/
def whiten (p : BitVec w) (x : BitVec w × BitVec w) : BitVec w × BitVec w :=
  (x.1 ^^^ p, x.2)

/-- The network with input key `k₀`, round keys `ks` and output key `k₁`. -/
def network (k₀ : BitVec w) (ks : List (BitVec w)) (k₁ : BitVec w)
    (x : BitVec w × BitVec w) : BitVec w × BitVec w :=
  whiten k₁ (steps F ks (whiten k₀ x)).swap

@[simp] lemma steps_nil (x : BitVec w × BitVec w) : steps F [] x = x := rfl

@[simp] lemma steps_cons (p : BitVec w) (ps : List (BitVec w)) (x : BitVec w × BitVec w) :
    steps F (p :: ps) x = steps F ps (step F p x) := rfl

lemma steps_append (ps qs : List (BitVec w)) (x : BitVec w × BitVec w) :
    steps F (ps ++ qs) x = steps F qs (steps F ps x) := by
  simp [steps]

@[simp] lemma whiten_whiten (p : BitVec w) (x : BitVec w × BitVec w) :
    whiten p (whiten p x) = x := by
  simp only [whiten, BitVec.xor_assoc, BitVec.xor_self, BitVec.xor_zero]

/-- Between two exchanges of the halves, a step undoes itself. -/
lemma step_swap_step (p : BitVec w) (x : BitVec w × BitVec w) :
    step F p (step F p x).swap = x.swap := by
  obtain ⟨l, r⟩ := x
  have hcancel : r ^^^ F l ^^^ p ^^^ F l ^^^ p = r := by
    rw [BitVec.xor_assoc (r ^^^ F l), BitVec.xor_comm p, ← BitVec.xor_assoc (r ^^^ F l),
      BitVec.xor_assoc r, BitVec.xor_self, BitVec.xor_zero, BitVec.xor_assoc, BitVec.xor_self,
      BitVec.xor_zero]
  simp [step, hcancel]

/-- The reversed list of steps undoes the list, between two exchanges. -/
lemma steps_reverse_swap (ps : List (BitVec w)) (x : BitVec w × BitVec w) :
    steps F ps.reverse (steps F ps x).swap = x.swap := by
  induction ps generalizing x with
  | nil => rfl
  | cons p ps ih =>
      rw [List.reverse_cons, steps_append, steps_cons F p ps, ih]
      exact step_swap_step F p x

/-- **Inversion.**  The network under the reversed key sequence undoes the network. -/
theorem network_reverse (k₀ : BitVec w) (ks : List (BitVec w)) (k₁ : BitVec w)
    (x : BitVec w × BitVec w) :
    network F k₁ ks.reverse k₀ (network F k₀ ks k₁ x) = x := by
  simp only [network, whiten_whiten, steps_reverse_swap, Prod.swap_swap]

/-- The network as a permutation of the blocks; its inverse runs the keys backwards. -/
def networkPerm (k₀ : BitVec w) (ks : List (BitVec w)) (k₁ : BitVec w) :
    Equiv.Perm (BitVec w × BitVec w) where
  toFun := network F k₀ ks k₁
  invFun := network F k₁ ks.reverse k₀
  left_inv := network_reverse F k₀ ks k₁
  right_inv x := by simpa using network_reverse F k₁ ks.reverse k₀ x

end Whuctf.Feistel
