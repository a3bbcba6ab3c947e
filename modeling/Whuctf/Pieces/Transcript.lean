import Mathlib.Data.List.OfFn
import Mathlib.Tactic.FinCases
import Whuctf.Library.Python
import Whuctf.Library.Refinement

/-!
# The transcript of the pieces challenge

`task.rs` writes the outputs of its generator to `task.txt`, one lower-case hexadecimal number on a
line: 1248 bytes, 156 words of 32 bits, and 78 words of 64 bits in two halves cut by masks.  `std.py`
reads the file back, making one word of every four bytes by concatenating the texts of their lines.

The writer does not pad a byte below `0x10` to two digits, so the reader gets a group of four bytes
right exactly when no such byte stands below a byte that is not zero.  The words are always right.

The reader goes through the file in the order in which it was written and counts the lines of each
part, so a line that is read wrongly does not move the lines behind it.
-/

namespace Whuctf.Pieces

open Python Numerals

/-! ## The writer

The three lists are written one after the other, a number on a line.  The words of 64 bits are written
twice, all of them under one mask and then all of them under the other. -/

/-- `writeln!(file, "{:x}", n)`: the hexadecimal numeral, without zeros in front, and a newline. -/
def writeHex (n : ℕ) : List Char := numeral 16 n ++ ['\n']

/-- `_mask_a`, the upper half of each byte. -/
def maskA : BitVec 64 := 0xf0f0f0f0f0f0f0f0#64

/-- `_mask_b`, the lower half of each byte. -/
def maskB : BitVec 64 := 0x0f0f0f0f0f0f0f0f#64

/-- The content of `task.txt` after `main` of `task.rs` has drawn the three lists. -/
def writeTranscript (list1 : Vector (BitVec 8) 1248) (list2 : Vector (BitVec 32) 156)
    (list3 : Vector (BitVec 64) 78) : List Char :=
  (list1.toList.flatMap fun rand8 => writeHex rand8.toNat) ++
    ((list2.toList.flatMap fun rand32 => writeHex rand32.toNat) ++
      ((list3.toList.flatMap fun rand64 => writeHex (rand64 &&& maskA).toNat) ++
        list3.toList.flatMap fun rand64 => writeHex (rand64 &&& maskB).toNat))

/-! ## The reader

The reader counts lines as the writer does.  For a word it concatenates the texts of four lines, each
in front of those before it, and reads the whole as one number. -/

/-- The inner loop of `std.py` for the remaining `j` lines of a group, on the text `b`. -/
def readGroup : ℕ → List Char → List Char → List Char × List Char
  | 0, b, file => (b, file)
  | j + 1, b, file => readGroup j (strip (readline file).1 ++ b) (readline file).2

/-- One pass of the first loop of `std.py`: a word from four lines. -/
def readWord (file : List Char) : Except PyError (ℕ × List Char) := do
  let (b, file) := readGroup 4 [] file
  return (← intOf b 16, file)

/-- `int(f.readline(), 16)`, with the rest of the file; blanks around the numeral do not matter. -/
def readInt (file : List Char) : Except PyError (ℕ × List Char) := do
  let (line, file) := readline file
  return (← intOf line 16, file)

/-- A loop that appends `n` values read from the file to a list. -/
def readMany (read : List Char → Except PyError (ℕ × List Char)) :
    ℕ → List Char → Except PyError (List ℕ × List Char)
  | 0, file => return ([], file)
  | n + 1, file => do
      let (value, file) ← read file
      let (values, file) ← readMany read n file
      return (value :: values, file)

/-- The reader of `std.py`: `n_list` and `n1_list`, in the order in which the lines are in the file. -/
def readTranscript (file : List Char) : Except PyError (List ℕ × List ℕ) := do
  let (words, file) ← readMany readWord 312 file
  let (ints, file) ← readMany readInt 156 file
  let (a, file) ← readMany readInt 78 file
  let (b, _) ← readMany readInt 78 file
  let n1List ← (List.range 78).mapM fun i : ℕ => do
    return (← getItem a i) ||| (← getItem b i)
  return (words ++ ints, n1List)

/-! ## Reading back what was written -/

lemma readMany_flatMap {α : Type*} {read : List Char → Except PyError (ℕ × List Char)}
    {write : α → List Char} {value : α → ℕ}
    (h : ∀ a rest, read (write a ++ rest) = .ok (value a, rest)) (l : List α) (rest : List Char) :
    readMany read l.length (l.flatMap write ++ rest) = .ok (l.map value, rest) := by
  induction l with
  | nil => rfl
  | cons a l ih =>
    rw [List.length_cons, readMany, List.flatMap_cons, List.append_assoc, h, ok_bind]
    show (readMany read l.length (l.flatMap write ++ rest) >>= _) = _
    rw [ih, ok_bind]
    rfl

lemma isSpace_numeral {n : ℕ} {c : Char} (hc : c ∈ numeral 16 n) : isSpace c = false :=
  isSpace_textOf (fun _ hd => lt_of_mem_digitsOf (by omega) hd) hc

lemma readline_writeHex (n : ℕ) (rest : List Char) :
    readline (writeHex n ++ rest) = (writeHex n, rest) := by
  have hline : '\n' ∉ numeral 16 n := by
    intro hmem
    have hspace := isSpace_numeral hmem
    simp [isSpace] at hspace
  rw [writeHex, List.append_assoc, List.singleton_append, readline_line hline]

lemma strip_writeHex (n : ℕ) : strip (writeHex n) = numeral 16 n :=
  strip_line fun _ hc => isSpace_numeral hc

lemma readInt_writeHex (n : ℕ) (rest : List Char) :
    readInt (writeHex n ++ rest) = .ok (n, rest) := by
  have hint : intOf (writeHex n) 16 = .ok n := by
    rw [intOf, strip_writeHex, parse_numeral (by omega) (by omega)]
  simp only [readInt, readline_writeHex, hint, ok_bind]
  rfl

/-! ## Groups of four bytes

What is concatenated are digits, and how many a byte has depends on the byte.  So the number of a group
is made of the digits of its bytes, and not of the bytes. -/

/-- Four consecutive bytes, which are one output of the generator. -/
abbrev Group := Fin 4 → Byte

/-- The digits that the reader concatenates for a group, the last byte's first. -/
def groupDigits (group : Group) : List ℕ :=
  digitsOf 16 (group 3).toNat ++ (digitsOf 16 (group 2).toNat ++
    (digitsOf 16 (group 1).toNat ++ digitsOf 16 (group 0).toNat))

/-- The lines of a group, the first byte first, one byte on each. -/
def writeGroup (group : Group) : List Char :=
  (List.ofFn group).flatMap fun rand8 => writeHex rand8.toNat

/-- The number that the reader makes of a group: the lines are put one behind the other and read as one
numeral. -/
def readValue (group : Group) : ℕ := Nat.ofDigits 16 (groupDigits group).reverse

/-- The little-endian word of a group, which the reader is to find. -/
def wordOf (group : Group) : ℕ := Nat.ofDigits 256 (List.ofFn fun j => (group j).toNat)

lemma readWord_writeGroup (group : Group) (rest : List Char) :
    readWord (writeGroup group ++ rest) = .ok (readValue group, rest) := by
  have hlines : writeGroup group ++ rest = writeHex (group 0).toNat ++ (writeHex (group 1).toNat ++
      (writeHex (group 2).toNat ++ (writeHex (group 3).toNat ++ rest))) := by
    simp [writeGroup]
  have hread : readGroup 4 [] (writeGroup group ++ rest) = (textOf (groupDigits group), rest) := by
    rw [hlines]
    simp only [readGroup, readline_writeHex, strip_writeHex]
    simp [numeral, textOf, groupDigits]
  have hdigits : ∀ d ∈ groupDigits group, d < 16 := by
    intro d hd
    simp only [groupDigits, List.mem_append] at hd
    rcases hd with hd | hd | hd | hd <;> exact lt_of_mem_digitsOf (by omega) hd
  have hne : groupDigits group ≠ [] := by simp [groupDigits, digitsOf_ne_nil]
  have hint : intOf (textOf (groupDigits group)) 16 = .ok (readValue group) := by
    rw [intOf, strip_eq fun c hc => isSpace_textOf hdigits hc, parse_textOf le_rfl hne hdigits]
    rfl
  simp only [readWord, hread, hint, ok_bind]
  rfl

/-! ## The whole file -/

lemma toList_eq_ofFn {α : Type*} {n : ℕ} (v : Vector α n) : v.toList = List.ofFn v.get := by
  apply List.ext_getElem
  · simp
  · intro i _ _
    simp [Vector.get]

/-- A vector read in groups of `n`: its list is the groups one behind the other. -/
lemma toList_eq_flatMap {α : Type*} {m n : ℕ} (v : Vector α (m * n)) (group : Fin m → Fin n → α)
    (hgroup : ∀ i j (h : i.val * n + j.val < m * n), group i j = v.get ⟨i.val * n + j.val, h⟩) :
    v.toList = (List.ofFn group).flatMap List.ofFn := by
  rw [toList_eq_ofFn, List.ofFn_mul, List.flatMap_def, List.map_ofFn]
  congr 2
  funext i
  rw [Function.comp_apply]
  congr 1
  funext j
  exact (hgroup i j _).symm

section File

variable (list1 : Vector (BitVec 8) 1248) (list2 : Vector (BitVec 32) 156)
  (list3 : Vector (BitVec 64) 78)

/-- Group `g` of the bytes. -/
def groupOf (g : Fin 312) : Group := fun j => list1[g.val * 4 + j.val]

/-- The words that the reader makes of the bytes, one for each group of four. -/
def readWords : List ℕ := (List.ofFn (groupOf list1)).map readValue

/-- The little-endian words of the bytes, which are what the generator has put out. -/
def wordsOf : List ℕ := (List.ofFn (groupOf list1)).map wordOf

lemma writeBytes_eq : (list1.toList.flatMap fun rand8 => writeHex rand8.toNat) =
    (List.ofFn (groupOf list1)).flatMap writeGroup := by
  have hgroups := toList_eq_flatMap (m := 312) (n := 4) list1 (groupOf list1)
    fun _ _ _ => rfl
  rw [hgroups, List.flatMap_assoc]
  rfl

/-- The masks cut a word without loss: its two halves have no bit in common and all of them together. -/
lemma or_masks (rand64 : BitVec 64) :
    (rand64 &&& maskA).toNat ||| (rand64 &&& maskB).toNat = rand64.toNat := by
  have hmasks : maskA ||| maskB = BitVec.allOnes 64 := by decide
  rw [← BitVec.toNat_or, ← BitVec.and_or_distrib_left, hmasks, BitVec.and_allOnes]

/-- A loop of `std.py` reads what one loop of `task.rs` wrote. -/
lemma readMany_vector {w n : ℕ} (list : Vector (BitVec w) n) (part : BitVec w → ℕ)
    (rest : List Char) :
    readMany readInt n ((list.toList.flatMap fun rand => writeHex (part rand)) ++ rest) =
      .ok (list.toList.map part, rest) := by
  have hline : ∀ (rand : BitVec w) (rest : List Char),
      readInt (writeHex (part rand) ++ rest) = .ok (part rand, rest) :=
    fun rand rest => readInt_writeHex (part rand) rest
  have hmany := readMany_flatMap hline list.toList rest
  rwa [Vector.length_toList] at hmany

/-- Reading a transcript never fails; the words of 32 and 64 bits come back as they were. -/
lemma readTranscript_writeTranscript :
    readTranscript (writeTranscript list1 list2 list3) =
      .ok (readWords list1 ++ list2.toList.map BitVec.toNat, list3.toList.map BitVec.toNat) := by
  have hwords := readMany_flatMap readWord_writeGroup (List.ofFn (groupOf list1))
  rw [List.length_ofFn] at hwords
  have hlast := readMany_vector list3 (fun rand64 => (rand64 &&& maskB).toNat) []
  rw [List.append_nil] at hlast
  have hor : ((List.range 78).mapM fun i : ℕ => do
      return (← getItem (list3.toList.map fun rand64 => (rand64 &&& maskA).toNat) i) |||
        (← getItem (list3.toList.map fun rand64 => (rand64 &&& maskB).toNat) i)) =
        (.ok (list3.toList.map BitVec.toNat) : Except PyError (List ℕ)) := by
    have hofFn : list3.toList.map BitVec.toNat = List.ofFn fun i => (list3.get i).toNat := by
      rw [toList_eq_ofFn, List.map_ofFn]
      rfl
    rw [hofFn]
    apply mapM_range_ok
    intro i
    rw [getItem_ofNat (by simp), getItem_ofNat (by simp), ok_bind, ok_bind]
    simp only [List.getElem_map, or_masks]
    rfl
  unfold readTranscript writeTranscript
  rw [writeBytes_eq, hwords, ok_bind]
  simp only [readMany_vector, hlast, ok_bind]
  rw [hor]
  rfl

end File

/-! ## When the words of a group are right -/

/-- A byte written with one digit leaves the digits above it one place too low, which shows unless
they are all zero. -/
def Group.Padded (group : Group) : Prop :=
  ∀ i j, i < j → (group i).toNat < 16 → (group j).toNat = 0

lemma length_digitsOf_byte (b : Byte) :
    (digitsOf 16 b.toNat).length = if b.toNat < 16 then 1 else 2 := by
  have hbyte : ∀ n < 256, (digitsOf 16 n).length = if n < 16 then 1 else 2 := by decide +kernel
  exact hbyte b.toNat b.isLt

lemma readValue_eq (group : Group) :
    readValue group = (group 0).toNat + 16 ^ (digitsOf 16 (group 0).toNat).length *
      ((group 1).toNat + 16 ^ (digitsOf 16 (group 1).toNat).length *
        ((group 2).toNat + 16 ^ (digitsOf 16 (group 2).toNat).length * (group 3).toNat)) := by
  rw [readValue, groupDigits]
  simp only [← List.append_assoc]
  simp only [ofDigits_reverse_append, ofDigits_digitsOf]

lemma wordOf_eq (group : Group) :
    wordOf group = (group 0).toNat + 256 * ((group 1).toNat + 256 *
      ((group 2).toNat + 256 * (group 3).toNat)) := by
  simp [wordOf, Nat.ofDigits_cons]

lemma readValue_eq_wordOf_iff (group : Group) : readValue group = wordOf group ↔ group.Padded := by
  have hpadded : group.Padded ↔
      ((group 0).toNat < 16 → (group 1).toNat = 0 ∧ (group 2).toNat = 0 ∧ (group 3).toNat = 0) ∧
        ((group 1).toNat < 16 → (group 2).toNat = 0 ∧ (group 3).toNat = 0) ∧
          ((group 2).toNat < 16 → (group 3).toNat = 0) := by
    constructor
    · intro h
      exact ⟨fun h0 => ⟨h 0 1 (by decide) h0, h 0 2 (by decide) h0, h 0 3 (by decide) h0⟩,
        fun h1 => ⟨h 1 2 (by decide) h1, h 1 3 (by decide) h1⟩, fun h2 => h 2 3 (by decide) h2⟩
    · rintro ⟨h0, h1, h2⟩ i j hij hi
      fin_cases i <;> fin_cases j <;> simp_all
  rw [hpadded, readValue_eq, wordOf_eq]
  simp only [length_digitsOf_byte]
  by_cases h0 : (group 0).toNat < 16 <;> by_cases h1 : (group 1).toNat < 16 <;>
    by_cases h2 : (group 2).toNat < 16 <;> simp only [h0, h1, h2, if_true, if_false, true_imp_iff,
      false_imp_iff, true_and, iff_true] <;> omega

/-- The transcript format round-trips exactly when, in every group of four bytes, only zeros stand
above a byte below `0x10`. -/
theorem transcript_roundTrip_iff (list1 : Vector (BitVec 8) 1248) (list2 : Vector (BitVec 32) 156)
    (list3 : Vector (BitVec 64) 78) :
    readTranscript (writeTranscript list1 list2 list3) =
        .ok (wordsOf list1 ++ list2.toList.map BitVec.toNat, list3.toList.map BitVec.toNat) ↔
      ∀ g, (groupOf list1 g).Padded := by
  have hwords : readWords list1 = wordsOf list1 ↔ ∀ g, (groupOf list1 g).Padded := by
    unfold readWords wordsOf
    rw [List.map_ofFn, List.map_ofFn, List.ofFn_inj]
    constructor
    · intro heq g
      exact (readValue_eq_wordOf_iff _).mp (congrFun heq g)
    · intro hall
      funext g
      exact (readValue_eq_wordOf_iff _).mpr (hall g)
  rw [readTranscript_writeTranscript, ← hwords]
  constructor
  · intro heq
    simpa using heq
  · intro heq
    rw [heq]

/-- The transcript of 1248 bytes `0x01`: each group reads as `0x1111` in place of `0x01010101`. -/
theorem ones_not_roundTrip :
    ¬∀ (list1 : Vector (BitVec 8) 1248) (list2 : Vector (BitVec 32) 156)
      (list3 : Vector (BitVec 64) 78), readTranscript (writeTranscript list1 list2 list3) =
        .ok (wordsOf list1 ++ list2.toList.map BitVec.toNat, list3.toList.map BitVec.toNat) := by
  intro hclaim
  have hones := hclaim (Vector.replicate 1248 1#8) (Vector.replicate 156 0#32)
    (Vector.replicate 78 0#64)
  rw [readTranscript_writeTranscript] at hones
  have hwords : readWords (Vector.replicate 1248 1#8) = wordsOf (Vector.replicate 1248 1#8) := by
    simpa using hones
  unfold readWords wordsOf at hwords
  rw [List.map_ofFn, List.map_ofFn, List.ofFn_inj] at hwords
  have hgroup : groupOf (Vector.replicate 1248 1#8) 0 = fun _ => 1#8 := by
    funext j
    simp [groupOf]
  have hfirst := congrFun hwords 0
  rw [Function.comp_apply, Function.comp_apply, hgroup] at hfirst
  revert hfirst
  decide

end Whuctf.Pieces
