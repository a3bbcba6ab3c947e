import Mathlib.Data.List.GetD
import Whuctf.Segments.Checksum

/-!
# What the checksum of the segments binary detects

`func1` accepts a string of 42 characters in the frame `flag{`, `}` whose inner 36 characters have one
fixed checksum.  A window of four bytes takes the checksum through every value exactly once, whatever
stands before and behind it: so it can always be completed, in one way, and two accepted strings
differ in more than such a window.

The windows are any four consecutive positions of the whole string.  One that reaches into the frame
covers fewer inner characters, and is then contained in a window of the inner ones, where the algebra of
the checksum applies; outside the inner characters accepted strings agree anyway.
-/

namespace Whuctf.Segments

/-! ## The check -/

/-- A string in memory.  The byte behind its characters is the terminator. -/
def buffer (bytes : List Byte) : Memory ℕ := fun i => bytes.getD i 0#8

/-- `strncmp`, on the characters of two strings without their terminators. -/
def strncmp : List Byte → List Byte → ℕ → ℤ
  | c :: s, d :: t, n + 1 => if c = d then strncmp s t n else (c.toNat : ℤ) - d.toNat
  | c :: _, [], _ + 1 => c.toNat
  | [], d :: _, _ + 1 => -d.toNat
  | _, _, _ => 0

/-- The characters of `"flag{"`. -/
def opening : List Byte := [0x66#8, 0x6c#8, 0x61#8, 0x67#8, 0x7b#8]

/-- The character `'}'`. -/
def closing : Byte := 0x7d#8

/-- `func1`, on the characters of its argument: four tests, each of which returns at once when it
fails. -/
def func1 (input : List Byte) : Bool :=
  -- the `size_t` of `strlen` becomes an `int`
  let inputLength : ℤ := (BitVec.ofNat 32 input.length).toInt
  if inputLength ≠ 42 then false
  else if 0 ≠ strncmp input opening 5 then false
  else if buffer input 41 ≠ closing then false
  else if 0xb71d49a1#32 ≠ func2 (buffer input) 5 36 then false
  else true

/-! ## Strings in memory -/

lemma read_buffer (bytes : List Byte) {a n : ℕ} (h : a + n ≤ bytes.length) :
    (buffer bytes).read a n = (bytes.drop a).take n := by
  apply List.ext_getElem
  · simp
    omega
  · intro i hi _
    have hin : a + i < bytes.length := by
      rw [Memory.length_read] at hi
      omega
    rw [Memory.getElem_read, buffer, Nat.cast_id, List.getD_eq_getElem _ _ hin, List.getElem_take,
      List.getElem_drop]

lemma func2_buffer (bytes : List Byte) : func2 (buffer bytes) 0 bytes.length = crc32 bytes := by
  rw [func2_eq, read_buffer bytes (by omega), List.drop_zero, List.take_length]

lemma take_of_strncmp {s t : List Byte} (ht : 0#8 ∉ t) (h : strncmp s t t.length = 0) :
    s.take t.length = t := by
  induction t generalizing s with
  | nil => rfl
  | cons d t ih =>
      rw [List.mem_cons, not_or] at ht
      cases s with
      | nil =>
          have hd : d.toNat = 0 := by simpa [strncmp] using h
          exact absurd (BitVec.eq_of_toNat_eq hd).symm ht.1
      | cons c s =>
          rw [List.length_cons, strncmp] at h
          by_cases hc : c = d
          · rw [if_pos hc] at h
            rw [List.length_cons, List.take_succ_cons, ih ht.2 h, hc]
          · rw [if_neg hc] at h
            have heq : c.toNat = d.toNat := by omega
            exact absurd (BitVec.eq_of_toNat_eq heq) hc

/-- What an accepted string consists of: 42 characters, the frame at its two ends, and inner characters
with the expected checksum. -/
lemma of_func1 {input : List Byte} (hint : input.length < 2 ^ 32) (h : func1 input = true) :
    input.length = 42 ∧ input.take 5 = opening ∧ input[41]? = some closing ∧
      crc32 ((input.drop 5).take 36) = 0xb71d49a1#32 := by
  simp only [func1, ne_eq, ite_not] at h
  split_ifs at h with hlength hopening hclosing hsum
  have hlen : input.length = 42 := by
    rw [BitVec.toInt_eq_toNat_bmod, BitVec.toNat_ofNat, Int.bmod_def] at hlength
    omega
  refine ⟨hlen, ?_, ?_, ?_⟩
  · exact take_of_strncmp (t := opening) (by decide) hopening.symm
  · rw [List.getElem?_eq_getElem (by omega), ← hclosing, buffer, List.getD_eq_getElem]
  · rw [hsum, func2_eq, read_buffer input (by omega)]

/-! ## Windows

Two strings that agree outside a window have the same bytes before and behind it.  The register that
enters the window is then the same, and what leaves it determines the result. -/

/-- Between any bytes there is, for each value, exactly one completion of four bytes with which the
checksum has it. -/
lemma existsUnique_crc32 (u w : List Byte) (t : BitVec 32) :
    ∃! b : List Byte, b.length = 4 ∧ crc32 (u ++ b ++ w) = t :=
  Crc.existsUnique_window (by decide) (by decide) u w t

/-- Byte strings with the same checksum that agree outside a window of four bytes are the same. -/
lemma eq_of_window {a b : List Byte} (hlength : a.length = b.length) {k : ℕ} (hk : k + 4 ≤ a.length)
    (hsame : ∀ i, ¬(k ≤ i ∧ i < k + 4) → a[i]? = b[i]?) (hsum : crc32 a = crc32 b) : a = b := by
  have hcut : ∀ l : List Byte, l.take k ++ (l.drop k).take 4 ++ l.drop (k + 4) = l := by
    intro l
    rw [List.append_assoc, ← List.drop_drop, List.take_append_drop, List.take_append_drop]
  have hbefore : a.take k = b.take k := by
    apply List.ext_getElem?
    intro i
    by_cases hi : i < k
    · rw [List.getElem?_take_of_lt hi, List.getElem?_take_of_lt hi, hsame i (by omega)]
    · rw [List.getElem?_take_eq_none (by omega), List.getElem?_take_eq_none (by omega)]
  have hbehind : a.drop (k + 4) = b.drop (k + 4) := by
    apply List.ext_getElem?
    intro i
    rw [List.getElem?_drop, List.getElem?_drop, hsame _ (by omega)]
  have hwindow : (a.drop k).take 4 = (b.drop k).take 4 := by
    apply (existsUnique_crc32 (a.take k) (a.drop (k + 4)) (crc32 a)).unique
    · exact ⟨by rw [List.length_take, List.length_drop]; omega, by rw [hcut]⟩
    · refine ⟨by rw [List.length_take, List.length_drop]; omega, ?_⟩
      rw [hbefore, hbehind, hcut, hsum]
  rw [← hcut a, ← hcut b, hbefore, hwindow, hbehind]

/-- Two accepted strings of equal length differ outside every window of four bytes.  A window that
reaches into the frame leaves room for one inside it, since the frame is the same in both. -/
lemma eq_of_accepted {x y : List Byte} (hint : x.length < 2 ^ 32) (hlength : x.length = y.length)
    (hx : func1 x = true) (hy : func1 y = true) {k : ℕ}
    (hsame : ∀ i, ¬(k ≤ i ∧ i < k + 4) → x[i]? = y[i]?) : x = y := by
  obtain ⟨hlen, hopen, hclose, hsum⟩ := of_func1 hint hx
  obtain ⟨-, hopen', hclose', hsum'⟩ := of_func1 (hlength ▸ hint) hy
  have hinner : ∀ (l : List Byte) (i : ℕ),
      ((l.drop 5).take 36)[i]? = if i < 36 then l[5 + i]? else none := by
    intro l i
    by_cases hi : i < 36
    · rw [List.getElem?_take_of_lt hi, List.getElem?_drop, if_pos hi]
    · rw [List.getElem?_take_eq_none (by omega), if_neg hi]
  have hsumeq : (x.drop 5).take 36 = (y.drop 5).take 36 := by
    apply eq_of_window (k := min (k - 5) 32)
    · rw [List.length_take, List.length_take, List.length_drop, List.length_drop, hlength]
    · rw [List.length_take, List.length_drop]
      omega
    · intro i hi
      rw [hinner, hinner]
      by_cases hin : i < 36
      · rw [if_pos hin, if_pos hin, hsame (5 + i) (by omega)]
      · rw [if_neg hin, if_neg hin]
    · rw [hsum, hsum']
  apply List.ext_getElem?
  intro i
  by_cases hlow : i < 5
  · rw [← List.getElem?_take_of_lt hlow, hopen, ← hopen', List.getElem?_take_of_lt hlow]
  by_cases hmid : i < 41
  · have hi := congrArg (fun l : List Byte => l[i - 5]?) hsumeq
    simp only [hinner, if_pos (show i - 5 < 36 by omega), show 5 + (i - 5) = i by omega] at hi
    exact hi
  by_cases hlast : i = 41
  · rw [hlast, hclose, hclose']
  · rw [List.getElem?_eq_none (by omega), List.getElem?_eq_none (by omega)]

/-- **Detection.**  Between any bytes, four bytes take the checksum through every value exactly once.
So two different strings that agree outside four consecutive bytes are never both accepted, and with
any 32 of the 36 inner characters around a window there is one completion with the expected
checksum.

The bound on the length of a string is the address space of the shipped binary, which is built for i386:
it holds no longer string, and `main` reads 42 characters.  Below it the `int` to which `func1` assigns
`strlen` is 42 for strings of 42 characters only. -/
theorem window_detection :
    (∀ (u w : List Byte) (t : BitVec 32), ∃! b : List Byte,
      b.length = 4 ∧ func2 (buffer (u ++ b ++ w)) 0 (u ++ b ++ w).length = t) ∧
    (∀ (x y : List Byte) (k : ℕ), x.length < 2 ^ 32 → x.length = y.length → x ≠ y →
      (∀ i, ¬(k ≤ i ∧ i < k + 4) → x[i]? = y[i]?) → ¬(func1 x = true ∧ func1 y = true)) ∧
    ∀ u w : List Byte, u.length + w.length = 32 → ∃! b : List Byte,
      b.length = 4 ∧ func2 (buffer (u ++ b ++ w)) 0 36 = 0xb71d49a1#32 := by
  refine ⟨?_, ?_, ?_⟩
  · intro u w t
    simp only [func2_buffer]
    exact existsUnique_crc32 u w t
  · rintro x y k hint hlength hne hsame ⟨hx, hy⟩
    exact hne (eq_of_accepted hint hlength hx hy hsame)
  · intro u w huw
    obtain ⟨b, ⟨hb, hvalue⟩, hunique⟩ := existsUnique_crc32 u w 0xb71d49a1#32
    have hsum : ∀ b : List Byte, b.length = 4 →
        func2 (buffer (u ++ b ++ w)) 0 36 = crc32 (u ++ b ++ w) := by
      intro b hb
      have hlength : (u ++ b ++ w).length = 36 := by
        rw [List.length_append, List.length_append]
        omega
      rw [← hlength, func2_buffer]
    refine ⟨b, ⟨hb, by rw [hsum b hb, hvalue]⟩, ?_⟩
    rintro b' ⟨hb', hvalue'⟩
    exact hunique b' ⟨hb', by rw [← hsum b' hb', hvalue']⟩

/-- One changed character, and a window at the end of 32 others. -/
theorem window_detection_zeros :
    ¬(func1 (opening ++ 0x30#8 :: (List.replicate 35 0x30#8 ++ [closing])) = true ∧
      func1 (opening ++ 0x31#8 :: (List.replicate 35 0x30#8 ++ [closing])) = true) ∧
    ∃! b : List Byte, b.length = 4 ∧
      func2 (buffer (List.replicate 32 0x30#8 ++ b ++ [])) 0 36 = 0xb71d49a1#32 := by
  have hsame : ∀ i, ¬(5 ≤ i ∧ i < 5 + 4) →
      (opening ++ 0x30#8 :: (List.replicate 35 0x30#8 ++ [closing]))[i]? =
        (opening ++ 0x31#8 :: (List.replicate 35 0x30#8 ++ [closing]))[i]? := by
    intro i hi
    rcases i with _ | _ | _ | _ | _ | _ | i
    all_goals first | rfl | omega
  exact ⟨window_detection.2.1 _ _ 5 (by decide) (by decide) (by decide) hsame,
    window_detection.2.2 _ _ (by decide)⟩

end Whuctf.Segments
