import Mathlib.Data.BitVec
import Mathlib.Data.List.Basic

/-!
# The Blowfish network

Blowfish on a pair of 32-bit words, as it is defined: sixteen rounds that mix a subkey into the left
word, the round function of the left word into the right one, and exchange the words; behind the last
round the exchange is undone and two more subkeys are mixed in.

Two rounds exchange the words twice, so an implementation that takes the rounds in pairs never has to
(`foldl_round_two_mul`).

The substitution boxes and the subkeys are arbitrary functions here.  How they are made from a key
belongs to the program that makes them, and the network itself is the same for any.
-/

namespace Whuctf.Blowfish

/-- A 32-bit word. -/
abbrev Word := BitVec 32

/-- The round function on four substitution boxes, the first of which takes the highest byte. -/
def roundFunction (boxes : ℕ → BitVec 8 → Word) (x : Word) : Word :=
  ((boxes 0 (x.extractLsb' 24 8) + boxes 1 (x.extractLsb' 16 8)) ^^^ boxes 2 (x.extractLsb' 8 8)) +
    boxes 3 (x.extractLsb' 0 8)

section Network

variable (F : Word → Word)

/-- One round under the subkey `p`: the subkey into the left word, the round function of it into the
right one, and then the exchange. -/
def round (p : Word) (x : Word × Word) : Word × Word :=
  let left := x.1 ^^^ p
  let right := x.2 ^^^ F left
  (right, left)

/-- The network under the subkeys `p 0`, …, `p 17`. -/
def network (p : ℕ → Word) (x : Word × Word) : Word × Word :=
  let y := ((List.range 16).foldl (fun y i => round F (p i) y) x).swap
  (y.1 ^^^ p 17, y.2 ^^^ p 16)

/-- Two rounds, with the words in place: instead of swapping them, the second round works on them the
other way round. -/
def doubleRound (p₀ p₁ : Word) (x : Word × Word) : Word × Word :=
  let left := x.1 ^^^ p₀
  let right := x.2 ^^^ F left ^^^ p₁
  (left ^^^ F right, right)

lemma round_round (p₀ p₁ : Word) (x : Word × Word) :
    round F p₁ (round F p₀ x) = doubleRound F p₀ p₁ x := rfl

/-- Rounds in pairs: after an even number of rounds the words have changed places an even number of
times. -/
lemma foldl_round_two_mul (p : ℕ → Word) (n : ℕ) (x : Word × Word) :
    (List.range (2 * n)).foldl (fun y i => round F (p i) y) x =
      (List.range n).foldl (fun y i => doubleRound F (p (2 * i)) (p (2 * i + 1)) y) x := by
  induction n with
  | zero => rfl
  | succ n ih =>
      rw [Nat.mul_succ, List.range_succ, List.range_succ, List.range_succ, List.foldl_concat,
        List.foldl_concat, List.foldl_concat, ih, round_round]

lemma network_eq (p : ℕ → Word) (x : Word × Word) :
    network F p x =
      let y := (List.range 8).foldl (fun y i => doubleRound F (p (2 * i)) (p (2 * i + 1)) y) x
      (y.2 ^^^ p 17, y.1 ^^^ p 16) := by
  rw [← foldl_round_two_mul]
  rfl

end Network

end Whuctf.Blowfish
