import Mathlib.Algebra.Order.BigOperators.Group.Finset
import Mathlib.Algebra.Ring.GeomSum
import Mathlib.Data.Finset.Sort
import Mathlib.Order.Interval.Finset.Fin

/-!
# Guessing games

A secret is to be hit by a sequence of guesses.  `ask s m` is the answer to the guess `m` when the
secret is `s`: `none` for a hit, and otherwise a reply the guesser may use.  A strategy maps the
replies so far to the next guess, and `Wins ask s n σ` says that `σ` hits `s` within `n` guesses.

A strategy is a tree of guesses, and a secret is won only where it is guessed.  When a guess hits
at most one secret and misses with at most `k` different replies, `n` guesses win at most
`1 + k + … + k ^ (n - 1)` secrets (`card_le_of_wins`).  When the replies tell on which side of the
guess the secret lies, this bound is reached for `k = 2`: halving wins every set of less than
`2 ^ n` secrets (`exists_strategy`).

Both halves are over any types of secrets, guesses and replies.  The counting is an induction on the
number of guesses, in which the secrets of a tree are those of its root and of its `k` subtrees; the
strategy is built by the same induction, from the strategies for the two halves.
-/

namespace Whuctf.Guessing

open Finset

variable {S M R : Type*}

/-- The strategy hits the secret within `n` guesses, each of them made on the replies to those before. -/
def Wins (ask : S → M → Option R) (s : S) : ℕ → (List R → M) → Prop
  | 0, _ => False
  | n + 1, σ =>
      match ask s (σ []) with
      | none => True
      | some r => Wins ask s n fun replies => σ (r :: replies)

section Bound

variable {ask : S → M → Option R} {s : S} {n : ℕ} {σ : List R → M}

lemma wins_of_hit (h : ask s (σ []) = none) : Wins ask s (n + 1) σ := by
  rw [Wins, h]
  trivial

lemma wins_of_reply {r : R} (h : ask s (σ []) = some r) :
    Wins ask s (n + 1) σ ↔ Wins ask s n fun replies => σ (r :: replies) := by
  rw [Wins, h]

/-- Secrets may be named by others: a strategy wins against a name exactly when it wins against what is
named. -/
lemma wins_comp {S' : Type*} (f : S' → S) (s : S') :
    Wins (fun s => ask (f s)) s n σ ↔ Wins ask (f s) n σ := by
  induction n generalizing σ with
  | zero => exact Iff.rfl
  | succ n ih =>
      rw [Wins, Wins]
      cases ask (f s) (σ []) with
      | none => exact Iff.rfl
      | some r => exact ih

/-- **Counting the guesses of a tree.**  When a guess hits at most one secret, and misses with at
most `k` replies, a strategy wins at most `1 + k + … + k ^ (n - 1)` secrets in `n` guesses. -/
lemma card_le_of_wins [DecidableEq S] [DecidableEq R] {k : ℕ}
    (hhit : ∀ m s t, ask s m = none → ask t m = none → s = t)
    (hmiss : ∀ m, ∃ T : Finset R, #T ≤ k ∧ ∀ s r, ask s m = some r → r ∈ T)
    (V : Finset S) (hV : ∀ s ∈ V, Wins ask s n σ) : #V ≤ ∑ i ∈ range n, k ^ i := by
  induction n generalizing σ V with
  | zero =>
      have hempty : V = ∅ := Finset.eq_empty_of_forall_notMem hV
      rw [hempty, Finset.card_empty]
      exact Nat.zero_le _
  | succ n ih =>
      obtain ⟨T, hcard, hT⟩ := hmiss (σ [])
      have hcover : V ⊆ V.filter (fun s => ask s (σ []) = none) ∪
          T.biUnion fun r => V.filter fun s => ask s (σ []) = some r := by
        intro s hs
        rw [Finset.mem_union]
        cases hask : ask s (σ []) with
        | none => exact Or.inl (Finset.mem_filter.mpr ⟨hs, hask⟩)
        | some r =>
            exact Or.inr (Finset.mem_biUnion.mpr
              ⟨r, hT s r hask, Finset.mem_filter.mpr ⟨hs, hask⟩⟩)
      have hone : #(V.filter fun s => ask s (σ []) = none) ≤ 1 := by
        apply Finset.card_le_one.mpr
        intro s hs t ht
        exact hhit _ s t (Finset.mem_filter.mp hs).2 (Finset.mem_filter.mp ht).2
      have hbranch : ∀ r ∈ T, #(V.filter fun s => ask s (σ []) = some r) ≤ ∑ i ∈ range n, k ^ i := by
        intro r _
        refine ih (σ := fun replies => σ (r :: replies)) _ fun s hs => ?_
        obtain ⟨hsV, hask⟩ := Finset.mem_filter.mp hs
        exact (wins_of_reply hask).mp (hV s hsV)
      calc #V ≤ _ := Finset.card_le_card hcover
        _ ≤ 1 + #T * ∑ i ∈ range n, k ^ i :=
          (Finset.card_union_le _ _).trans
            (Nat.add_le_add hone (Finset.card_biUnion_le_card_mul _ _ _ hbranch))
        _ ≤ 1 + k * ∑ i ∈ range n, k ^ i := by gcongr
        _ = ∑ i ∈ range (n + 1), k ^ i := by rw [geom_sum_succ, add_comm]

end Bound

section Halving

variable {α : Type*} [LinearOrder α]

/-- A finite set has an element with `a` elements below it, for every `a` less than its size. -/
lemma exists_card_below (V : Finset α) {a : ℕ} (ha : a < #V) :
    ∃ m ∈ V, #(V.filter (· < m)) = a ∧ #(V.filter (m < ·)) = #V - 1 - a := by
  let e := V.orderEmbOfFin rfl
  have hcount : ∀ (p : α → Prop) [DecidablePred p],
      #(V.filter p) = #(Finset.univ.filter fun i => p (e i)) := by
    intro p _
    calc #(V.filter p) = #((Finset.univ.map e.toEmbedding).filter p) := by
          rw [V.map_orderEmbOfFin_univ rfl]
      _ = _ := by
          rw [Finset.filter_map, Finset.card_map]
          rfl
  refine ⟨e ⟨a, ha⟩, V.orderEmbOfFin_mem rfl _, ?_, ?_⟩
  · have hbelow : (Finset.univ.filter fun i => e i < e ⟨a, ha⟩) = Finset.Iio ⟨a, ha⟩ := by
      ext i
      simp only [Finset.mem_filter_univ, Finset.mem_Iio, e.lt_iff_lt]
    rw [hcount, hbelow, Fin.card_Iio]
  · have habove : (Finset.univ.filter fun i => e ⟨a, ha⟩ < e i) = Finset.Ioi ⟨a, ha⟩ := by
      ext i
      simp only [Finset.mem_filter_univ, Finset.mem_Ioi, e.lt_iff_lt]
    rw [hcount, habove, Fin.card_Ioi]

/-- **Halving.**  When the reply to a guess tells on which side of it the secret lies, `n` guesses
suffice for every set of less than `2 ^ n` secrets, with guesses taken from the set. -/
lemma exists_strategy [DecidableEq R] {ask : α → M → Option R} {guess : α → M} {below above : R}
    (hne : below ≠ above)
    (hask : ∀ s m, ask s (guess m) =
      if m = s then none else if m < s then some below else some above)
    (V : Finset α) (hV : V.Nonempty) {n : ℕ} (hn : #V < 2 ^ n) :
    ∃ σ : List R → α, (∀ replies, σ replies ∈ V) ∧
      ∀ s ∈ V, Wins ask s n fun replies => guess (σ replies) := by
  induction n generalizing V with
  | zero =>
      have hpos := hV.card_pos
      rw [pow_zero] at hn
      omega
  | succ n ih =>
      have hpos := hV.card_pos
      rw [pow_succ] at hn
      obtain ⟨m, hm, hlow, hhigh⟩ := exists_card_below V (a := #V / 2) (by omega)
      -- each side has less than `2 ^ n` secrets; an empty side needs no strategy
      have hside : ∀ U ⊆ V, #U < 2 ^ n → ∃ σ : List R → α, (∀ replies, σ replies ∈ V) ∧
          ∀ s ∈ U, Wins ask s n fun replies => guess (σ replies) := by
        intro U hsub hcard
        rcases U.eq_empty_or_nonempty with rfl | hU
        · refine ⟨fun _ => m, fun _ => hm, fun s hs => ?_⟩
          exact absurd hs (Finset.notMem_empty s)
        · obtain ⟨σ, hmem, hwins⟩ := ih U hU hcard
          exact ⟨σ, fun replies => hsub (hmem replies), hwins⟩
      obtain ⟨low, hlowMem, hlowWins⟩ := hside _ (Finset.filter_subset (· < m) V) (by omega)
      obtain ⟨high, hhighMem, hhighWins⟩ := hside _ (Finset.filter_subset (m < ·) V) (by omega)
      refine ⟨fun
        | [] => m
        | r :: replies => if r = below then high replies else low replies, ?_, ?_⟩
      · intro replies
        cases replies with
        | nil => exact hm
        | cons r replies =>
            dsimp only
            by_cases hr : r = below
            · rw [if_pos hr]
              exact hhighMem replies
            · rw [if_neg hr]
              exact hlowMem replies
      · intro s hs
        rcases lt_trichotomy m s with hlt | heq | hgt
        · have hreply : ask s (guess m) = some below := by
            rw [hask, if_neg hlt.ne, if_pos hlt]
          refine (wins_of_reply hreply).mpr ?_
          simp only [if_true]
          exact hhighWins s (Finset.mem_filter.mpr ⟨hs, hlt⟩)
        · exact wins_of_hit (by rw [hask, if_pos heq])
        · have hreply : ask s (guess m) = some above := by
            rw [hask, if_neg hgt.ne', if_neg hgt.not_gt]
          refine (wins_of_reply hreply).mpr ?_
          simp only [if_neg hne.symm]
          exact hlowWins s (Finset.mem_filter.mpr ⟨hs, hgt⟩)

end Halving

end Whuctf.Guessing
