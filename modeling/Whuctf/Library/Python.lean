import Mathlib.Data.Int.GCD
import Mathlib.Data.List.Basic
import Mathlib.Data.Nat.Notation
import Mathlib.Tactic.TypeStar
import Whuctf.Library.Draws
import Whuctf.Library.Memory
import Whuctf.Library.Numerals

/-!
# Python's lists, texts and exceptions

What the Python programs of the development share: the exceptions they can raise, indexing with
negative indices, `range` with a step, the conversions between `bytes` and lists of integers or
hexadecimal texts, inverses modulo a number, `random.randint`, and the functions on texts.

A text is a list of characters.  Integers of a `bytes` object are naturals below 256, and `bytes(...)`
raises `ValueError` on others.  A computation that can raise is an `Except PyError`, and one that also
draws numbers is a `Draws.Run PyError`.
-/

namespace Whuctf.Python

/-- The exceptions of the modelled programs, by their class; texts of exceptions are left out. -/
inductive PyError
  | indexError | valueError | assertionError | zeroDivisionError | unicodeDecodeError
  deriving DecidableEq, Repr

/-- `l[i]`: a negative index counts from the end, and one outside the list is an `IndexError`. -/
def getItem {α : Type*} (l : List α) (i : ℤ) : Except PyError α :=
  let j := if i < 0 then i + l.length else i
  if h : 0 ≤ j ∧ j < l.length then .ok (l.get ⟨j.toNat, by omega⟩) else .error .indexError

/-- `l[i] = v`, with the list after the assignment; an index outside the list is an `IndexError`, as in
`getItem`. -/
def setItem {α : Type*} (l : List α) (i : ℤ) (v : α) : Except PyError (List α) :=
  let j := if i < 0 then i + l.length else i
  if 0 ≤ j ∧ j < l.length then .ok (l.set j.toNat v) else .error .indexError

/-- `l.pop(0)`, with the list that remains; an empty list raises. -/
def popFront {α : Type*} : List α → Except PyError (α × List α)
  | [] => .error .indexError
  | first :: rest => .ok (first, rest)

/-- `a % b` on naturals, with the `ZeroDivisionError` of Python. -/
def mod (a b : ℕ) : Except PyError ℕ :=
  if b = 0 then .error .zeroDivisionError else .ok (a % b)

/-- `range(0, stop, step)`, for a positive step: the multiples of the step below the stop. -/
def rangeStep (stop step : ℕ) : List ℕ :=
  (List.range ((stop + step - 1) / step)).map (· * step)

/-- `l[a:b]` with `0 ≤ a ≤ b`, which is shorter where the list ends before `b`. -/
def slice {α : Type*} (l : List α) (a b : ℕ) : List α := (l.drop a).take (b - a)

/-- `l[:-n]`, where `-0` is `0`, so that nothing is left of the list for `n = 0`. -/
def sliceToNeg {α : Type*} (l : List α) (n : ℕ) : List α :=
  if n = 0 then [] else l.take (l.length - n)

/-- `list(b)` of a `bytes` object, the values of its bytes. -/
def ints (bs : List Byte) : List ℕ := bs.map BitVec.toNat

/-- `bytes(l)` of a list of integers, with a `ValueError` when one of them is 256 or more. -/
def bytes (l : List ℕ) : Except PyError (List Byte) :=
  if l.all (· < 256) then .ok (l.map (BitVec.ofNat 8)) else .error .valueError

/-- The inverse of `a` modulo `m` by search, and the exception `e` where there is none. -/
def searchInverse (e : PyError) (a m : ℕ) : Except PyError ℕ :=
  match (List.range m).find? fun s => a * s % m = 1 with
  | some s => .ok s
  | none => .error e

/-- `random.randint(a, b)`: a value of the range, both ends included, and a `ValueError` on an empty
one. -/
def randint (a b : ℕ) : Draws.Run PyError ℕ :=
  if b < a then throw (.raises .valueError) else Draws.draw fun value => a ≤ value ∧ value ≤ b

/-! ## Texts

The functions on texts, restricted to what the programs pass to them.  Where a restriction leaves out
inputs of the Python function, its docstring says which. -/

/-- The whitespace of ASCII. -/
def isSpace (c : Char) : Bool := c ∈ [' ', '\t', '\n', '\r', '\x0b', '\x0c']

/-- `text.strip()`: the text without the whitespace at both of its ends. -/
def strip (text : List Char) : List Char :=
  ((text.dropWhile isSpace).reverse.dropWhile isSpace).reverse

/-- `int(text, base)` for a text of digits, with whitespace around it.  The other spellings that `int`
takes (a sign, a base prefix, underscores, digits of other scripts) are refused.  They are not those of a
numeral that a program has written; where a program reads a text that it has not written, it has to be
seen there that they make no difference. -/
def intOf (text : List Char) (base : ℕ) : Except PyError ℕ :=
  match Numerals.parse base (strip text) with
  | some n => .ok n
  | none => .error .valueError

/-- `f.readline()`, with what remains of the file: everything up to the next line end and this itself,
or all of the text when there is none. -/
def readline : List Char → List Char × List Char
  | [] => ([], [])
  | c :: rest => if c = '\n' then ([c], rest) else (c :: (readline rest).1, (readline rest).2)

/-- `bs.hex()`, two lower-case digits for each byte. -/
def hex (bs : List Byte) : List Char :=
  bs.flatMap fun b => Numerals.textOf [b.toNat / 16, b.toNat % 16]

/-- `bytes.fromhex(text)`: whitespace may stand between the bytes, not between the digits of one. -/
def fromhex : List Char → Except PyError (List Byte)
  | [] => .ok []
  | [c] => if isSpace c then .ok [] else .error .valueError
  | top :: bottom :: rest =>
      if isSpace top then fromhex (bottom :: rest)
      else match Numerals.digitIn 16 top, Numerals.digitIn 16 bottom with
        | some a, some b => do return BitVec.ofNat 8 (16 * a + b) :: (← fromhex rest)
        | _, _ => .error .valueError

/-! ## Random numbers -/

section Random

variable {a b value : ℕ} {draws rest : List ℕ}

/-- A value of the range is one that the call returns. -/
lemma randint_cons (ha : a ≤ value) (hb : value ≤ b) (rest : List ℕ) :
    randint a b (value :: rest) = .ok (value, rest) := by
  rw [randint, if_neg (by omega)]
  exact Draws.draw_cons ⟨ha, hb⟩ rest

lemma randint_eq_ok (h : randint a b draws = .ok (value, rest)) :
    a ≤ value ∧ value ≤ b ∧ draws = value :: rest := by
  by_cases hempty : b < a
  · rw [randint, if_pos hempty] at h
    cases h
  · rw [randint, if_neg hempty] at h
    obtain ⟨hvalue, hdraws⟩ := Draws.draw_eq_ok h
    exact ⟨hvalue.1, hvalue.2, hdraws⟩

/-- A draw from a range that is not empty: what it returns is in the range. -/
lemma ensures_randint (h : a ≤ b) : Draws.Ensures (randint a b) fun v => a ≤ v ∧ v ≤ b := by
  rw [randint, if_neg (by omega)]
  exact Draws.ensures_draw _

end Random

/-! ## Indexing and bytes -/

section Indexing

variable {α : Type*}

lemma getItem_ofNat {l : List α} {i : ℕ} (h : i < l.length) : getItem l i = .ok l[i] := by
  have hnonneg : ¬((i : ℤ) < 0) := by omega
  simp only [getItem, if_neg hnonneg]
  rw [dif_pos (by omega)]
  simp

lemma setItem_ofNat {l : List α} {i : ℕ} (h : i < l.length) (v : α) :
    setItem l i v = .ok (l.set i v) := by
  have hnonneg : ¬((i : ℤ) < 0) := by omega
  simp only [setItem, if_neg hnonneg]
  rw [if_pos (by omega)]
  simp

/-- The index `-(i + 1)` counts `i + 1` from the end. -/
lemma getItem_neg {l : List α} {i : ℕ} (hpos : 0 < i) (h : i ≤ l.length) :
    getItem l (-(i : ℤ)) = .ok (l.get ⟨l.length - i, by omega⟩) := by
  have hneg : -(i : ℤ) < 0 := by omega
  have hindex : (-(i : ℤ) + l.length).toNat = l.length - i := by omega
  simp only [getItem, if_pos hneg]
  rw [dif_pos (by omega)]
  simp only [hindex]

end Indexing

lemma bytes_ints (bs : List Byte) : bytes (ints bs) = .ok bs := by
  have hall : (ints bs).all (· < 256) = true := by
    simp only [ints, List.all_map, List.all_eq_true]
    intro b _
    exact decide_eq_true b.isLt
  have hround : (BitVec.ofNat 8 ∘ BitVec.toNat : Byte → Byte) = id := by
    funext b
    simp
  rw [bytes, if_pos hall, ints, List.map_map, hround, List.map_id]

lemma searchInverse_ok (e : PyError) {a m : ℕ} (hm : 1 < m) (hcoprime : Nat.gcd a m = 1) :
    ∃ s, searchInverse e a m = .ok s ∧ s < m ∧ a * s % m = 1 := by
  obtain ⟨s, hs, hinverse⟩ := Nat.exists_mul_mod_eq_one_of_coprime hcoprime hm
  unfold searchInverse
  cases hfind : (List.range m).find? fun s => a * s % m = 1 with
  | none =>
    have hnone := List.find?_eq_none.mp hfind s (List.mem_range.mpr hs)
    simp [hinverse] at hnone
  | some found =>
    have hfound := List.find?_some hfind
    exact ⟨found, rfl, List.mem_range.mp (List.mem_of_find?_eq_some hfind), by simpa using hfound⟩

/-! ## Reading texts -/

section Texts

lemma strip_eq {text : List Char} (h : ∀ c ∈ text, isSpace c = false) : strip text = text := by
  have hdrop : ∀ l : List Char, (∀ c ∈ l, isSpace c = false) → l.dropWhile isSpace = l := by
    intro l hl
    cases l with
    | nil => rfl
    | cons c rest => rw [List.dropWhile_cons_of_neg (by simp [hl c List.mem_cons_self])]
  rw [strip, hdrop text h, hdrop text.reverse fun c hc => h c (List.mem_reverse.mp hc),
    List.reverse_reverse]

/-- A line without its end is what stripping leaves of it, when no character of it is whitespace. -/
lemma strip_line {text : List Char} (h : ∀ c ∈ text, isSpace c = false) :
    strip (text ++ ['\n']) = text := by
  cases text with
  | nil => decide
  | cons c rest =>
    have hfirst : ((c :: rest) ++ ['\n']).dropWhile isSpace = (c :: rest) ++ ['\n'] := by
      rw [List.cons_append, List.dropWhile_cons_of_neg (by simp [h c List.mem_cons_self])]
    have hrest := strip_eq h
    rw [strip, List.dropWhile_cons_of_neg (by simp [h c List.mem_cons_self])] at hrest
    rw [strip, hfirst, List.reverse_append, List.reverse_singleton, List.singleton_append,
      List.dropWhile_cons_of_pos (by decide)]
    exact hrest

lemma readline_line {text rest : List Char} (h : '\n' ∉ text) :
    readline (text ++ '\n' :: rest) = (text ++ ['\n'], rest) := by
  induction text with
  | nil => simp [readline]
  | cons c text ih =>
    have hc : c ≠ '\n' := fun heq => h (heq ▸ List.mem_cons_self)
    rw [List.cons_append, readline, if_neg hc, ih fun hmem => h (List.mem_cons_of_mem c hmem)]
    rfl

lemma isSpace_digitChar : ∀ d < 16, isSpace (Nat.digitChar d) = false := by decide

lemma isSpace_textOf {digits : List ℕ} (hdigits : ∀ d ∈ digits, d < 16) {c : Char}
    (hc : c ∈ Numerals.textOf digits) : isSpace c = false := by
  obtain ⟨d, hd, rfl⟩ := List.mem_map.mp hc
  exact isSpace_digitChar d (hdigits d hd)

/-- `int` reads the numeral of a number in its base as that number. -/
lemma intOf_numeral {b n : ℕ} (hb : 1 < b) (hb16 : b ≤ 16) :
    intOf (Numerals.numeral b n) b = .ok n := by
  have hdigits : ∀ d ∈ Numerals.digitsOf b n, d < 16 := fun _ hd =>
    (Numerals.lt_of_mem_digitsOf hb hd).trans_le hb16
  have hstrip : strip (Numerals.numeral b n) = Numerals.numeral b n :=
    strip_eq fun _ hc => isSpace_textOf hdigits hc
  rw [intOf, hstrip, Numerals.parse_numeral hb hb16]

/-- `bytes.fromhex` reads what `hex` writes, whatever the bytes. -/
lemma fromhex_hex (bs : List Byte) : fromhex (hex bs) = .ok bs := by
  induction bs with
  | nil => rfl
  | cons b bs ih =>
    have htop : b.toNat / 16 < 16 := by omega
    have hbottom : b.toNat % 16 < 16 := Nat.mod_lt _ (by decide)
    have hbyte : BitVec.ofNat 8 (16 * (b.toNat / 16) + b.toNat % 16) = b := by
      rw [Nat.div_add_mod, BitVec.ofNat_toNat, BitVec.setWidth_eq]
    have hhex : hex (b :: bs) =
        Nat.digitChar (b.toNat / 16) :: Nat.digitChar (b.toNat % 16) :: hex bs := rfl
    simp only [hhex, fromhex, isSpace_digitChar _ htop, Numerals.digitIn_digitChar le_rfl htop,
      Numerals.digitIn_digitChar le_rfl hbottom, hbyte, ih, Bool.false_eq_true, if_false]
    rfl

end Texts

end Whuctf.Python
