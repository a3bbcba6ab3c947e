import Mathlib.Data.List.TakeWhile
import Whuctf.Library.Python

/-!
# Messages that end with a short part

A receiver collects the parts that arrive until one is shorter than its buffer, and strips what it has.
It gives the whole message back exactly when some part is shorter than the buffer and only whitespace
comes after the first such part (`recvall_eq_strip_iff`).

The parts are any in this, as the receiver looks at their lengths only.  What a network can make of a
text is a `IsCut`, in which a part holds at least one byte and at most what the receiver asked for.  Not
every such cut delivers a text, but one does when the text ends with whitespace, however long it is: whole
buffers first, then what is left, and the last character on its own (`exists_isCut`).
-/

namespace Whuctf.Receive

open Python

/-! ## Stripping

Characters that are not whitespace survive, which is how what was stripped off is told from the rest. -/

section Strip

lemma filter_dropWhile (p : Char → Bool) (text : List Char) :
    (text.dropWhile p).filter (!p ·) = text.filter (!p ·) := by
  have hdropped : (text.takeWhile p).filter (!p ·) = [] := by
    apply List.filter_eq_nil_iff.mpr
    intro c hc
    simp [List.mem_takeWhile_imp hc]
  calc (text.dropWhile p).filter (!p ·)
      = (text.takeWhile p).filter (!p ·) ++ (text.dropWhile p).filter (!p ·) := by
        rw [hdropped, List.nil_append]
    _ = text.filter (!p ·) := by
        rw [← List.filter_append, List.takeWhile_append_dropWhile]

/-- Stripping keeps every character that is not whitespace, in the middle of the text and at its ends. -/
lemma filter_strip (text : List Char) :
    (strip text).filter (!isSpace ·) = text.filter (!isSpace ·) := by
  rw [strip, List.filter_reverse, filter_dropWhile, ← List.filter_reverse, List.reverse_reverse,
    filter_dropWhile]

/-- What is appended to a text is stripped off exactly when it is whitespace. -/
lemma strip_append_eq_iff (text more : List Char) :
    strip (text ++ more) = strip text ↔ ∀ c ∈ more, isSpace c = true := by
  constructor
  · intro heq
    have hfilter := congrArg (List.filter (!isSpace ·)) heq
    rw [filter_strip, filter_strip, List.filter_append, List.append_right_eq_self,
      List.filter_eq_nil_iff] at hfilter
    intro c hc
    simpa using hfilter c hc
  · intro hmore
    have hlast : ∀ l, ((l ++ more).reverse.dropWhile isSpace) = l.reverse.dropWhile isSpace := by
      intro l
      rw [List.reverse_append, List.dropWhile_append_of_pos]
      intro c hc
      exact hmore c (List.mem_reverse.mp hc)
    rw [strip, strip, List.dropWhile_append]
    by_cases htext : (text.dropWhile isSpace).isEmpty = true
    · rw [if_pos htext, List.isEmpty_iff.mp htext, List.dropWhile_eq_nil_iff.mpr hmore]
    · rw [if_neg htext, hlast]

end Strip

/-! ## The receiver

The loop by its parts: those that fill the buffer, then the one that ends the message. -/

/-- The loop of a receiver that has `data`, on the parts that arrive: the message it returns and the
parts it has not asked for.  There is none when it waits for more. -/
def recvall (bufSize : ℕ) (data : List Char) :
    List (List Char) → Option (List Char × List (List Char))
  | [] => none
  | part :: parts =>
      if part.length < bufSize then some (strip (data ++ part), parts)
      else recvall bufSize (data ++ part) parts

/-- The receiver stops after the first short part, and takes off the whitespace around all it has read.
-/
lemma recvall_eq_some_iff {bufSize : ℕ} {data : List Char} {parts rest : List (List Char)}
    {message : List Char} :
    recvall bufSize data parts = some (message, rest) ↔
      ∃ full part, parts = full ++ part :: rest ∧ (∀ p ∈ full, bufSize ≤ p.length) ∧
        part.length < bufSize ∧ message = strip (data ++ (full.flatten ++ part)) := by
  induction parts generalizing data with
  | nil =>
    simp [recvall]
  | cons first parts ih =>
    rw [recvall]
    by_cases hshort : first.length < bufSize
    · rw [if_pos hshort, Option.some.injEq, Prod.mk.injEq]
      constructor
      · rintro ⟨rfl, rfl⟩
        exact ⟨[], first, rfl, by simp, hshort, by simp⟩
      · rintro ⟨full, part, heq, hfull, hpart, rfl⟩
        cases full with
        | nil =>
          cases heq
          exact ⟨rfl, rfl⟩
        | cons p full =>
          have hlong := hfull p List.mem_cons_self
          cases heq
          omega
    · rw [if_neg hshort, ih]
      constructor
      · rintro ⟨full, part, rfl, hfull, hpart, rfl⟩
        refine ⟨first :: full, part, rfl, ?_, hpart, by simp⟩
        intro p hp
        rcases List.mem_cons.mp hp with rfl | hp
        · omega
        · exact hfull p hp
      · rintro ⟨full, part, heq, hfull, hpart, rfl⟩
        cases full with
        | nil =>
          cases heq
          omega
        | cons p full =>
          cases heq
          exact ⟨full, part, rfl, fun q hq => hfull q (List.mem_cons_of_mem _ hq), hpart, by simp⟩

/-- A message arrives whole: some part is short, and only whitespace comes after the first of these. -/
def ArrivesWhole (bufSize : ℕ) (parts : List (List Char)) : Prop :=
  ∃ full part rest, parts = full ++ part :: rest ∧ (∀ p ∈ full, bufSize ≤ p.length) ∧
    part.length < bufSize ∧ ∀ c ∈ rest.flatten, isSpace c = true

/-- **When the message comes back.**  The receiver returns all of it, without the whitespace around it,
exactly when nothing but whitespace comes after the first short part. -/
theorem recvall_eq_strip_iff (bufSize : ℕ) (parts : List (List Char)) :
    (∃ rest, recvall bufSize [] parts = some (strip parts.flatten, rest)) ↔
      ArrivesWhole bufSize parts := by
  have hflatten : ∀ (full : List (List Char)) part rest,
      (full ++ part :: rest).flatten = (full.flatten ++ part) ++ rest.flatten := by
    intro full part rest
    simp
  constructor
  · rintro ⟨rest, hrecv⟩
    obtain ⟨full, part, rfl, hfull, hpart, hmessage⟩ := recvall_eq_some_iff.mp hrecv
    rw [hflatten, List.nil_append, strip_append_eq_iff] at hmessage
    exact ⟨full, part, rest, rfl, hfull, hpart, hmessage⟩
  · rintro ⟨full, part, rest, rfl, hfull, hpart, hrest⟩
    refine ⟨rest, recvall_eq_some_iff.mpr ⟨full, part, rfl, hfull, hpart, ?_⟩⟩
    rw [hflatten, List.nil_append, strip_append_eq_iff]
    exact hrest

/-! ## Cuts

A receiver with a buffer of one byte would never see a part that is short and not empty, so there are
cuts that deliver a text only for longer buffers. -/

/-- The parts in which a text can arrive at a receiver, none of them empty or longer than its buffer. -/
def IsCut (bufSize : ℕ) (parts : List (List Char)) (text : List Char) : Prop :=
  parts.flatten = text ∧ ∀ part ∈ parts, 0 < part.length ∧ part.length ≤ bufSize

lemma IsCut.cons {bufSize : ℕ} {part text : List Char} {parts : List (List Char)}
    (hpart : 0 < part.length ∧ part.length ≤ bufSize) (h : IsCut bufSize parts text) :
    IsCut bufSize (part :: parts) (part ++ text) := by
  refine ⟨by rw [List.flatten_cons, h.1], fun p hp => ?_⟩
  rcases List.mem_cons.mp hp with rfl | hp
  · exact hpart
  · exact h.2 p hp

/-- A part that fills the buffer leaves a message that arrives whole. -/
lemma ArrivesWhole.cons {bufSize : ℕ} {part : List Char} {parts : List (List Char)}
    (hpart : bufSize ≤ part.length) (h : ArrivesWhole bufSize parts) :
    ArrivesWhole bufSize (part :: parts) := by
  obtain ⟨full, last, rest, rfl, hfull, hlast, hrest⟩ := h
  refine ⟨part :: full, last, rest, rfl, fun p hp => ?_, hlast, hrest⟩
  rcases List.mem_cons.mp hp with rfl | hp
  · exact hpart
  · exact hfull p hp

/-- A text with whitespace behind it arrives whole under some cut. -/
lemma exists_isCut {bufSize : ℕ} (hsize : 1 < bufSize) {c : Char} (hc : isSpace c = true)
    (text : List Char) :
    ∃ parts, IsCut bufSize parts (text ++ [c]) ∧ ArrivesWhole bufSize parts := by
  have hlast : IsCut bufSize [[c]] [c] := by
    refine ⟨rfl, fun part hpart => ?_⟩
    rw [List.mem_singleton.mp hpart]
    exact ⟨Nat.one_pos, hsize.le⟩
  -- a buffer at a time, until less than a buffer is left in front of the last character
  induction hlength : text.length using Nat.strong_induction_on generalizing text with
  | _ n ih =>
    rcases Nat.lt_or_ge text.length bufSize with hshort | hlong
    · rcases Nat.eq_zero_or_pos text.length with hzero | hpos
      · obtain rfl := List.eq_nil_of_length_eq_zero hzero
        exact ⟨[[c]], hlast, [], [c], [], rfl, nofun, hsize, nofun⟩
      · refine ⟨[text, [c]], hlast.cons ⟨hpos, hshort.le⟩, [], text, [[c]], rfl, nofun, hshort, ?_⟩
        intro d hd
        rw [List.mem_singleton.mp hd]
        exact hc
    · have htake : (text.take bufSize).length = bufSize := List.length_take_of_le hlong
      have hdrop : (text.drop bufSize).length < n := by rw [List.length_drop]; omega
      obtain ⟨parts, hcut, hwhole⟩ := ih _ hdrop (text.drop bufSize) rfl
      refine ⟨text.take bufSize :: parts, ?_, hwhole.cons htake.ge⟩
      have hpart : 0 < (text.take bufSize).length ∧ (text.take bufSize).length ≤ bufSize :=
        ⟨by omega, htake.le⟩
      have hcons := hcut.cons hpart
      rwa [← List.append_assoc, List.take_append_drop] at hcons

end Whuctf.Receive
