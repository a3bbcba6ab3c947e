import Mathlib.Order.Lattice
import Mathlib.Order.Nat

/-!
# Bisection by questions

A number is found by questions whether it is greater than a given one, halving an interval.  Where every
answer inside the interval is right, the search ends with the number, or with the nearest end of the
interval when the number is outside (`bisect_eq`).

Nothing is asked of the answers outside the interval.  Each question halves the interval,
so the search stops, and it stops where the answers change from yes to no.
-/

namespace Whuctf.Bisection

/-- The search between `low` and `high`; `greater mid` is the answer to the question at `mid`. -/
def bisect (greater : ℕ → Bool) (low high : ℕ) : ℕ :=
  let mid := (low + high) / 2
  if low < high then
    if greater mid then bisect greater (mid + 1) high else bisect greater low mid
  else mid
termination_by high - low

/-- **What the search finds.**  When the answers inside the interval are those of one number, it is
that number, or the end of the interval that is nearest to it. -/
theorem bisect_eq {greater : ℕ → Bool} {c low high : ℕ} (hle : low ≤ high)
    (h : ∀ mid, low ≤ mid → mid < high → (greater mid = true ↔ mid < c)) :
    bisect greater low high = max low (min c high) := by
  induction low, high using bisect.induct greater with
  | case1 low high mid hlt hgreater ih =>
    have hc : mid < c := (h mid (by omega) (by omega)).mp hgreater
    rw [bisect, if_pos hlt, if_pos hgreater,
      ih (by omega) fun mid' hlow hhigh => h mid' (by omega) hhigh]
    omega
  | case2 low high mid hlt hgreater ih =>
    have hc : ¬mid < c := fun hc => hgreater ((h mid (by omega) (by omega)).mpr hc)
    rw [bisect, if_pos hlt, if_neg hgreater,
      ih (by omega) fun mid' hlow hhigh => h mid' hlow (by omega)]
    omega
  | case3 low high hlt =>
    rw [bisect, if_neg hlt]
    omega

end Whuctf.Bisection
