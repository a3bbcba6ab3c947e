import Whuctf.Library.Process

/-!
# Streams cut into pieces

A `read` from a stream returns what has arrived: at least one byte and at most as many as were
asked for, and nothing at the end of the stream.  `Cut p bs script` says that `script` is a way in
which the stream `bs` can reach the process `p`, one piece for each of its reads, and `inFull` is
the result when every read returns all it asks for.

`NoShortRead p script` says that every piece has the length its read asked for.  It decides what
becomes of two kinds of processes.

- A process is `FailStop` when it halts as soon as a read returns less than asked for.  If it
  comes to a result on whole reads, it comes to the same result on a cut stream exactly when no
  read is short (`FailStop.result_eq_iff`).
- A process `Asks` for a list of lengths when these are what its reads ask for, whatever they
  return.  Its reads return the blocks the stream is made of exactly when no read is short
  (`Asks.prefix_iff`).
-/

namespace Whuctf.Proc

variable {σ α β : Type}

/-! ## Cut streams -/

/-- The pieces the reads of a process can return when they are fed from a stream. -/
inductive Cut : Proc σ α → List Byte → List (List Byte) → Prop
  | ret (a : α) (bs : List Byte) : Cut (.ret a) bs []
  | halt (s : σ) (bs : List Byte) : Cut (.halt s) bs []
  | write {ws : List Byte} {p : Proc σ α} {bs : List Byte} {script : List (List Byte)}
      (h : Cut p bs script) : Cut (.write ws p) bs script
  | read {n : ℕ} {k : List Byte → Proc σ α} {piece rest : List Byte} {script : List (List Byte)}
      (hlen : piece.length ≤ n) (hpos : piece = [] → n = 0 ∨ rest = [])
      (h : Cut (k piece) rest script) : Cut (.read n k) (piece ++ rest) (piece :: script)

/-- Every piece has the length its read asks for, up to the end of the process; pieces behind that are
not looked at. -/
def NoShortRead : Proc σ α → List (List Byte) → Prop
  | .ret _, _ | .halt _, _ => True
  | .write _ p, script => NoShortRead p script
  | .read n k, script =>
      (script.headD []).length = n ∧ NoShortRead (k ((script.headD []).take n)) script.tail

/-- The pieces of reads that return all they ask for. -/
def whole : Proc σ α → List Byte → List (List Byte)
  | .ret _, _ | .halt _, _ => []
  | .write _ p, bs => whole p bs
  | .read n k, bs => bs.take n :: whole (k (bs.take n)) (bs.drop n)

/-- The result when every read returns all it asks for. -/
def inFull (p : Proc σ α) (bs : List Byte) : Except σ α := (p.replay (p.whole bs)).result

@[simp] lemma inFull_ret (a : α) (bs : List Byte) : inFull (.ret a : Proc σ α) bs = .ok a := rfl
@[simp] lemma inFull_halt (s : σ) (bs : List Byte) :
    inFull (.halt s : Proc σ α) bs = .error s := rfl
@[simp] lemma inFull_write (ws bs : List Byte) (p : Proc σ α) :
    inFull (.write ws p) bs = inFull p bs := rfl

lemma inFull_read (n : ℕ) (k : List Byte → Proc σ α) (bs : List Byte) :
    inFull (.read n k) bs = inFull (k (bs.take n)) (bs.drop n) := by
  simp only [inFull, whole, replay, List.headD_cons, List.tail_cons, List.take_take, min_self]

lemma cut_whole (p : Proc σ α) (bs : List Byte) : Cut p bs (p.whole bs) := by
  induction p generalizing bs with
  | ret a => exact .ret a bs
  | halt s => exact .halt s bs
  | write ws p ih => exact .write (ih bs)
  | read n k ih =>
      have hrest := ih (bs.take n) (bs.drop n)
      have hcut : Cut (.read n k) (bs.take n ++ bs.drop n) ((Proc.read n k).whole bs) := by
        refine .read (List.length_take_le n bs) (fun hnil => ?_) hrest
        rcases List.take_eq_nil_iff.mp hnil with hn | hbs
        · exact Or.inl hn
        · exact Or.inr (by rw [hbs, List.drop_nil])
      rwa [List.take_append_drop] at hcut

/-- Without a short read a cut stream is read in full. -/
lemma Cut.result_of_noShortRead {p : Proc σ α} {bs : List Byte} {script : List (List Byte)}
    (hcut : Cut p bs script) (h : NoShortRead p script) :
    (p.replay script).result = p.inFull bs := by
  induction hcut with
  | ret a bs => rfl
  | halt s bs => rfl
  | write hcut ih => exact ih h
  | @read n k piece rest script hlen hpos hcut ih =>
      obtain ⟨hpiece, hrest⟩ := h
      rw [List.headD_cons] at hpiece hrest
      rw [List.take_of_length_le hlen] at hrest
      rw [replay, List.headD_cons, List.tail_cons, List.take_of_length_le hlen, ih hrest,
        inFull_read, List.take_left' hpiece, List.drop_left' hpiece]

/-- What a process has taken of a stream does not matter for its result in full. -/
lemma inFull_of_consume {p q : Proc σ α} {bs rest : List Byte} (h : p.consume bs = (q, rest))
    (more : List Byte) : p.inFull (bs ++ more) = q.inFull (rest ++ more) := by
  induction p generalizing bs with
  | ret a =>
      obtain ⟨rfl, rfl⟩ := Prod.mk.inj h
      rfl
  | halt s =>
      obtain ⟨rfl, rfl⟩ := Prod.mk.inj h
      rfl
  | write ws p ih =>
      obtain ⟨rfl, rfl⟩ := Prod.mk.inj h
      rfl
  | read n k ih =>
      by_cases hn : n ≤ bs.length
      · rw [consume, if_pos hn] at h
        rw [inFull_read, List.take_append_of_le_length hn, List.drop_append_of_le_length hn, ih _ h]
      · rw [consume, if_neg hn] at h
        obtain ⟨rfl, rfl⟩ := Prod.mk.inj h
        rfl

/-- A process that has come to a write comes to the same write with more to do behind it. -/
lemma consume_bind_write {p q : Proc σ α} {bs ws rest : List Byte}
    (h : p.consume bs = (.write ws q, rest)) (f : α → Proc σ β) :
    (p.bind f).consume bs = (.write ws (q.bind f), rest) := by
  induction p generalizing bs with
  | ret a => cases h
  | halt s => cases h
  | write us p ih =>
      cases h
      rfl
  | read n k ih =>
      by_cases hn : n ≤ bs.length
      · rw [consume, if_pos hn] at h
        rw [read_bind, consume, if_pos hn, ih _ h]
      · rw [consume, if_neg hn] at h
        cases h

/-! ### Behind pending writes -/

lemma Cut.emit {p : Proc σ α} {bs : List Byte} {script : List (List Byte)} (h : Cut p bs script) :
    Cut p.emit.2 bs script := by
  induction h with
  | ret a bs => exact .ret a bs
  | halt s bs => exact .halt s bs
  | write h ih => exact ih
  | read hlen hpos h ih => exact .read hlen hpos h

lemma result_emit (p : Proc σ α) (script : List (List Byte)) :
    (p.emit.2.replay script).result = (p.replay script).result := by
  induction p with
  | write ws p ih => exact ih
  | ret a => rfl
  | halt s => rfl
  | read n k ih => rfl

lemma noShortRead_emit (p : Proc σ α) (script : List (List Byte)) :
    NoShortRead p.emit.2 script ↔ NoShortRead p script := by
  induction p with
  | write ws p ih => exact ih
  | ret a => exact Iff.rfl
  | halt s => exact Iff.rfl
  | read n k ih => exact Iff.rfl

/-! ## Processes that stop at a short read

The property goes down the tree of the process: behind every read, what comes after a chunk that is too
short is a halt.  A result is then a proof that all reads were served in full. -/

/-- The process halts as soon as a read returns less than it asks for. -/
def FailStop : Proc σ α → Prop
  | .ret _ | .halt _ => True
  | .write _ p => FailStop p
  | .read n k => ∀ bs, if bs.length < n then ∃ s, k bs = .halt s else FailStop (k bs)

namespace FailStop

lemma ret (a : α) : FailStop (.ret a : Proc σ α) := trivial

lemma halt (s : σ) : FailStop (.halt s : Proc σ α) := trivial

lemma write (ws : List Byte) {p : Proc σ α} (hp : FailStop p) : FailStop (.write ws p) := hp

lemma read {n : ℕ} {k : List Byte → Proc σ α} (hshort : ∀ bs, bs.length < n → ∃ s, k bs = .halt s)
    (hfull : ∀ bs, n ≤ bs.length → FailStop (k bs)) : FailStop (.read n k) := by
  intro bs
  by_cases hlt : bs.length < n
  · rw [if_pos hlt]
    exact hshort bs hlt
  · rw [if_neg hlt]
    exact hfull bs (by omega)

lemma bind {p : Proc σ α} {f : α → Proc σ β} (hp : FailStop p) (hf : ∀ a, FailStop (f a)) :
    FailStop (p.bind f) := by
  induction p with
  | ret a => exact hf a
  | halt s => trivial
  | write ws p ih => exact ih hp
  | read n k ih =>
      refine read (fun bs hlt => ?_) fun bs hle => ih bs ?_
      · obtain ⟨s, hs⟩ := (if_pos hlt).mp (hp bs)
        exact ⟨s, by rw [hs, halt_bind]⟩
      · exact (if_neg hle.not_gt).mp (hp bs)

/-- A fail-stop process that comes to a result has had no short read. -/
lemma noShortRead_of_ok {p : Proc σ α} (hp : FailStop p) {bs : List Byte}
    {script : List (List Byte)} (hcut : Cut p bs script) {a : α}
    (h : (p.replay script).result = .ok a) : NoShortRead p script := by
  induction hcut with
  | ret a bs => trivial
  | halt s bs => trivial
  | write hcut ih => exact ih hp h
  | @read n k piece rest script hlen hpos hcut ih =>
      have hk := hp piece
      rw [replay, List.headD_cons, List.tail_cons, List.take_of_length_le hlen] at h
      rw [NoShortRead, List.headD_cons, List.tail_cons, List.take_of_length_le hlen]
      by_cases hlt : piece.length < n
      · rw [if_pos hlt] at hk
        obtain ⟨s, hs⟩ := hk
        rw [hs] at h
        cases h
      · rw [if_neg hlt] at hk
        exact ⟨by omega, ih hk h⟩

/-- A first read that is cut short ends a fail-stop process. -/
lemma cut_short {n : ℕ} {k : List Byte → Proc σ α} (hp : FailStop (.read n k))
    {piece : List Byte} (hpos : piece ≠ []) (hlt : piece.length < n) (rest : List Byte) :
    Cut (.read n k) (piece ++ rest) [piece] ∧
      ∃ s, ((Proc.read n k).replay [piece]).result = .error s := by
  have hk := hp piece
  rw [if_pos hlt] at hk
  obtain ⟨s, hs⟩ := hk
  refine ⟨.read hlt.le (fun hnil => absurd hnil hpos) (by rw [hs]; exact .halt s rest), s, ?_⟩
  rw [replay, List.headD_cons, List.take_of_length_le hlt.le, hs]
  rfl

/-- **Exactly without short reads** does a fail-stop process come to the result it has in full. -/
lemma result_eq_iff {p : Proc σ α} (hp : FailStop p) {bs : List Byte}
    {script : List (List Byte)} (hcut : Cut p bs script) {a : α} (h : p.inFull bs = .ok a) :
    (p.replay script).result = p.inFull bs ↔ NoShortRead p script := by
  constructor
  · intro heq
    exact hp.noShortRead_of_ok hcut (heq.trans h)
  · exact hcut.result_of_noShortRead

end FailStop

/-! ## Processes that ask for given lengths -/

/-- The reads of the process ask for the given lengths, whatever they return; it may halt before
it has made them all. -/
def Asks : Proc σ α → List ℕ → Prop
  | .ret _, lengths => lengths = []
  | .halt _, _ => True
  | .write _ p, lengths => Asks p lengths
  | .read n k, lengths => ∃ more, lengths = n :: more ∧ ∀ bs, Asks (k bs) more

namespace Asks

lemma bind {p : Proc σ α} {f : α → Proc σ β} {lengths more : List ℕ} (hp : Asks p lengths)
    (hf : ∀ a, Asks (f a) more) : Asks (p.bind f) (lengths ++ more) := by
  induction p generalizing lengths with
  | ret a =>
      cases hp
      exact hf a
  | halt s => trivial
  | write ws p ih => exact ih hp
  | read n k ih =>
      obtain ⟨later, rfl, hk⟩ := hp
      exact ⟨later ++ more, rfl, fun bs => ih bs (hk bs)⟩

/-- **Blocks.**  On a stream made of blocks of the lengths asked for, the reads return the blocks
exactly when none is short. -/
lemma prefix_iff {p : Proc σ α} {lengths : List ℕ} (hp : Asks p lengths)
    {blocks : List (List Byte)} (hblocks : blocks.map List.length = lengths) {more : List Byte}
    {script : List (List Byte)} (hcut : Cut p (blocks.flatten ++ more) script) :
    script <+: blocks ↔ NoShortRead p script := by
  induction p generalizing lengths blocks script with
  | ret a =>
      cases hcut
      exact iff_of_true List.nil_prefix trivial
  | halt s =>
      cases hcut
      exact iff_of_true List.nil_prefix trivial
  | write ws p ih =>
      cases hcut with
      | write hcut => exact ih hp hblocks hcut
  | read n k ih =>
      obtain ⟨later, rfl, hk⟩ := hp
      obtain ⟨block, blocks, rfl⟩ : ∃ b bs, blocks = b :: bs := by
        cases blocks with
        | nil => cases hblocks
        | cons b bs => exact ⟨b, bs, rfl⟩
      obtain ⟨hblock, hlater⟩ := List.cons.inj hblocks
      generalize hstream : (block :: blocks).flatten ++ more = stream at hcut
      cases hcut with
      | @read _ _ piece rest script hlen hpos hcut =>
          rw [List.flatten_cons, List.append_assoc] at hstream
          rw [NoShortRead, List.headD_cons, List.tail_cons, List.take_of_length_le hlen,
            List.cons_prefix_cons]
          -- once the first piece is the first block, the rest of the stream is the other blocks
          have hrest : piece = block → (script <+: blocks ↔ NoShortRead (k piece) script) := by
            rintro rfl
            refine ih piece (hk piece) hlater ?_
            rwa [List.append_cancel_left hstream]
          constructor
          · rintro ⟨heq, hprefix⟩
            exact ⟨by rw [heq, hblock], (hrest heq).mp hprefix⟩
          · rintro ⟨hlength, hno⟩
            have heq : piece = block := (List.append_inj hstream (by rw [hblock, hlength])).1.symm
            exact ⟨heq, (hrest heq).mpr hno⟩

end Asks

end Whuctf.Proc
