import Whuctf.Library.Segmentation

/-!
# Connections that close

The steps of a `Duplex` are those of a connection that both sides keep open: a read waits until all it
asks for has come, and what is written is on its way.  A side that has closed the connection, or whose
program has ended, is gone, and then the other meets two more things.

- A read need not wait.  It returns less than it asks for, which is what was still on its way, or nothing
  when the connection has been reset; there is nothing left to read behind it.
- A write can end the program, as the signal for a broken pipe does.  It can also go through for a while,
  which is a step as before.

`Hangup` has these steps for two predicates that say when a side is gone.  They come beside those of
`Step`, at any time after a side has gone: when a program learns of it is up to the network.

Most processes do not get far on such a connection.  One that halts at a short read (`Proc.FailStop`)
cannot be led into a state by a hang-up in which it would not have come otherwise, but for the state in
which it has halted (`Hangup.right_cases`).
-/

namespace Whuctf.Duplex

variable {σ α τ β : Type} {leftGone : Proc σ α → Prop} {rightGone : Proc τ β → Prop}
  {d d' : Duplex σ α τ β}

/-- What a side can meet when the other is gone: a read that returns a part of what is on its way, less
than was asked for, or the end of the program at a write. -/
inductive Hangup (leftGone : Proc σ α → Prop) (rightGone : Proc τ β → Prop) :
    Duplex σ α τ β → Duplex σ α τ β → Prop
  | leftEnd {n : ℕ} {k : List Byte → Proc σ α} {q : Proc τ β} {bs l r : List Byte}
      (hgone : rightGone q) (hbs : bs <+: l) (hshort : bs.length < n) :
      Hangup leftGone rightGone ⟨.read n k, q, l, r⟩ ⟨k bs, q, [], r⟩
  | rightEnd {n : ℕ} {p : Proc σ α} {k : List Byte → Proc τ β} {bs l r : List Byte}
      (hgone : leftGone p) (hbs : bs <+: r) (hshort : bs.length < n) :
      Hangup leftGone rightGone ⟨p, .read n k, l, r⟩ ⟨p, k bs, l, []⟩
  | leftKilled {bs : List Byte} {p : Proc σ α} {q : Proc τ β} {l r : List Byte} (s : σ)
      (hgone : rightGone q) : Hangup leftGone rightGone ⟨.write bs p, q, l, r⟩ ⟨.halt s, q, l, r⟩
  | rightKilled {bs : List Byte} {p : Proc σ α} {q : Proc τ β} {l r : List Byte} (t : τ)
      (hgone : leftGone p) : Hangup leftGone rightGone ⟨p, .write bs q, l, r⟩ ⟨p, .halt t, l, r⟩

/-! ### The right side

What the steps of either kind make of it.  Of the left side nothing is asked, so it may be a process that
goes on over short reads. -/

/-- **A hang-up stops a side that stops at short reads.**  Either the right side has gone itself and only
the left notices, or it halts. -/
lemma Hangup.right_cases (h : Hangup leftGone rightGone d d') (hright : d.right.FailStop) :
    rightGone d.right ∧ d'.right = d.right ∨ ∃ t, d'.right = .halt t := by
  cases h with
  | leftEnd hgone _ _ => exact .inl ⟨hgone, rfl⟩
  | leftKilled _ hgone => exact .inl ⟨hgone, rfl⟩
  | @rightEnd n p k bs l r hgone hbs hshort => exact .inr ((if_pos hshort).mp (hright bs))
  | rightKilled t _ => exact .inr ⟨t, rfl⟩

/-- A side that has halted does nothing more, so its state stays what it was. -/
lemma Hangup.right_halt {t : τ} (h : Hangup leftGone rightGone d d') (hright : d.right = .halt t) :
    d'.right = .halt t := by
  cases h with
  | leftEnd _ _ _ => exact hright
  | leftKilled _ _ => exact hright
  | rightEnd _ _ _ => cases hright
  | rightKilled _ _ => cases hright

lemma Step.right_halt {t : τ} (h : Step d d') (hright : d.right = .halt t) : d'.right = .halt t := by
  cases h with
  | leftWrite => exact hright
  | leftRead => exact hright
  | rightWrite => cases hright
  | rightRead => cases hright

/-- A side that stops at short reads still does behind a step. -/
lemma Step.right_failStop (h : Step d d') (hright : d.right.FailStop) : d'.right.FailStop := by
  cases h with
  | leftWrite => exact hright
  | leftRead => exact hright
  | rightWrite => exact hright
  | rightRead n p k l r hn =>
      have hlen : ¬(r.take n).length < n := by
        rw [List.length_take_of_le hn]
        exact lt_irrefl n
      exact (if_neg hlen).mp (hright (r.take n))

end Whuctf.Duplex
