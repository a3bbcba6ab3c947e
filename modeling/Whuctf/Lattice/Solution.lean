import Whuctf.Lattice.RoundTrip
import Whuctf.Library.IntegerBasis

/-!
# The solution of the lattice challenge

`std.py` puts the public weights and the ciphertext into a matrix, reduces it, and prints every row of
the reduced matrix that has only zeros and ones, with a text made from its bits but the last.

Of the reduction only this is used, that its rows are a basis of the lattice of the rows of the matrix
(`IntegerBasis.Rebases`).  Whether the flag is among them depends on the reduction; in some basis it is
(`exists_rebases`).  The loop takes rows that end in a one as well.  They are never the flag, and the rows
that end in a zero always are (`rowBits_eq_iff`).  The text of a row lacks the last hexadecimal digit.
-/

namespace Whuctf.Lattice

open Draws Python SubsetSum IntegerBasis

/-! ## The programs -/

/-- The script of `task.py` on the number of the flag: its key, and the number that it prints for the
ciphertext. -/
def task (g : Gmpy2) (flag : ℕ) : Run PyError (Key × ℕ) := do
  let binMsg := Numerals.numeral 2 flag
  let key ← genKey g binMsg.length
  let enc ← raising (encrypt binMsg key.pubKey)
  return (key, ← raising (intOf enc 2))

/-- The matrix `A`: ones on the diagonal, the public weights in the last column, and the ciphertext
below them, negated. -/
def rows (pubKey : List ℕ) (enc : ℕ) : Matrix (Fin (pubKey.length + 1)) (Fin (pubKey.length + 1)) ℤ :=
  border (fun i => pubKey.get i) 0 (-enc)

/-- `str(j)` of an integer: a minus sign where it is negative, and the digits. -/
def str (j : ℤ) : List Char :=
  if j < 0 then '-' :: Numerals.numeral 10 j.natAbs else Numerals.numeral 10 j.natAbs

/-- The number that a row writes: its entries joined, without the last character, read in base two.  The
loop computes it for the rows it prints, and the end of the script for the row `a` written into it. -/
def decode (a : List ℤ) : Except PyError ℕ := intOf (sliceToNeg (a.flatMap str) 1) 2

/-- What the loop prints for a row, with the index of the row. -/
structure Line where
  index : ℕ
  row : List ℤ
  text : List Char
  deriving DecidableEq, Repr

/-- The body of the loop for a row of zeros and ones.  Of `hex(..)` the `0x` is cut off, and so is the
last digit. -/
def line (i : ℕ) (row : List ℤ) : Except PyError Line := do
  return { index := i, row, text := sliceToNeg (Numerals.numeral 16 (← decode row)) 1 }

/-- The loop over the rows of the reduced matrix, which prints those of zeros and ones. -/
def search {n : ℕ} (res : Matrix (Fin n) (Fin n) ℤ) : Except PyError (List Line) :=
  ((List.finRange n).filter fun i => (List.ofFn (res i)).all fun m => m = 0 ∨ m = 1).mapM
    fun i : Fin n => line i (List.ofFn (res i))

/-! ## Texts of bits -/

/-- The number that bits write, the most significant first, as `int` reads them in base two. -/
def value (bits : List Bool) : ℕ := Nat.ofDigits 2 (bits.map Bool.toNat).reverse

lemma toNat_lt_two {bits : List Bool} : ∀ d ∈ bits.map Bool.toNat, d < 2 := by
  intro d hd
  obtain ⟨b, -, rfl⟩ := List.mem_map.mp hd
  exact b.toNat_lt

lemma bitText_eq_textOf (bits : List Bool) : bitText bits = Numerals.textOf (bits.map Bool.toNat) := by
  rw [bitText, Numerals.textOf, List.map_map]
  apply List.map_congr_left
  rintro (_ | _) _ <;> rfl

lemma intOf_bitText {bits : List Bool} (hne : bits ≠ []) : intOf (bitText bits) 2 = .ok (value bits) := by
  have hsixteen : ∀ d ∈ bits.map Bool.toNat, d < 16 := fun d hd =>
    (toNat_lt_two d hd).trans (by decide)
  have hstrip : strip (bitText bits) = bitText bits := by
    apply strip_eq
    intro c hc
    rw [bitText_eq_textOf] at hc
    exact isSpace_textOf hsixteen hc
  rw [intOf, hstrip, bitText_eq_textOf,
    Numerals.parse_textOf (by decide) (by simpa using hne) toNat_lt_two]
  rfl

lemma value_injective {bits others : List Bool} (hlength : bits.length = others.length)
    (h : value bits = value others) : bits = others := by
  have hdigits := Nat.ofDigits_inj_of_len_eq (by decide) (by simpa using hlength)
    (fun d hd => toNat_lt_two d (List.mem_reverse.mp hd))
    (fun d hd => toNat_lt_two d (List.mem_reverse.mp hd)) h
  have hinjective : Function.Injective Bool.toNat := by
    rintro (_ | _) (_ | _) heq <;> first | rfl | cases heq
  exact hinjective.list_map (List.reverse_injective hdigits)

/-- The binary numeral of a number is a text of bits, which write the number. -/
lemma exists_bits (m : ℕ) :
    ∃ bits, bits ≠ [] ∧ Numerals.numeral 2 m = bitText bits ∧ value bits = m := by
  set bits := (Numerals.digitsOf 2 m).map fun d => decide (d = 1) with hbits
  have htoNat : bits.map Bool.toNat = Numerals.digitsOf 2 m := by
    rw [hbits, List.map_map]
    apply (List.map_congr_left _).trans (List.map_id _)
    intro d hd
    have hlt := Numerals.lt_of_mem_digitsOf (by decide) hd
    have hd' : d = 0 ∨ d = 1 := by omega
    rcases hd' with rfl | rfl <;> rfl
  refine ⟨bits, ?_, ?_, ?_⟩
  · simpa [hbits] using Numerals.digitsOf_ne_nil
  · rw [bitText_eq_textOf, htoNat, Numerals.numeral]
  · rw [value, htoNat, Numerals.ofDigits_digitsOf]

/-! ## Rows of zeros and ones

Only such rows are printed.  A row is the text of its bits, and dropping the last character drops the
last bit, the one that says whether the ciphertext was used. -/

section Row

variable {n : ℕ} {M : Fin (n + 1) → ℤ}

/-- The bits of a row before its last entry, where a one stands for a chosen weight. -/
def rowBits (M : Fin (n + 1) → ℤ) : List Bool := List.ofFn fun j : Fin n => decide (M j.castSucc = 1)

lemma flatMap_str {row : List ℤ} (h : ∀ m ∈ row, m = 0 ∨ m = 1) :
    row.flatMap str = bitText (row.map fun m => decide (m = 1)) := by
  induction row with
  | nil => rfl
  | cons m row ih =>
    obtain ⟨hm, hrow⟩ := List.forall_mem_cons.mp h
    rw [List.flatMap_cons, ih hrow]
    rcases hm with rfl | rfl <;> rfl

/-- A row is read as its bits before the last. -/
lemma decode_row (h : ∀ j, M j = 0 ∨ M j = 1) (hn : n ≠ 0) :
    decode (List.ofFn M) = .ok (value (rowBits M)) := by
  have hrow : ∀ m ∈ List.ofFn M, m = 0 ∨ m = 1 := by
    intro m hm
    obtain ⟨j, rfl⟩ := List.mem_ofFn.mp hm
    exact h j
  have hbits : (List.ofFn M).map (fun m => decide (m = 1)) =
      rowBits M ++ [decide (M (Fin.last n) = 1)] := by
    rw [List.ofFn_succ_last, List.map_append, List.map_ofFn]
    rfl
  have htext : sliceToNeg ((List.ofFn M).flatMap str) 1 = bitText (rowBits M) := by
    rw [flatMap_str hrow, hbits, bitText, List.map_append, sliceToNeg, if_neg one_ne_zero]
    simp
    rfl
  have hne : rowBits M ≠ [] := by
    apply List.ne_nil_of_length_pos
    rw [rowBits, List.length_ofFn]
    exact Nat.pos_of_ne_zero hn
  rw [decode, htext, intOf_bitText hne]

/-- The bits of two rows of zeros and ones that end in the same entry say which they are. -/
lemma eq_of_rowBits_eq {M' : Fin (n + 1) → ℤ} (h : ∀ j, M j = 0 ∨ M j = 1)
    (h' : ∀ j, M' j = 0 ∨ M' j = 1) (hlast : M (Fin.last n) = M' (Fin.last n))
    (hbits : rowBits M = rowBits M') : M = M' := by
  funext j
  cases j using Fin.lastCases with
  | last => exact hlast
  | cast j =>
    have hj := congrFun (List.ofFn_injective hbits) j
    rw [decide_eq_decide] at hj
    rcases h j.castSucc with hM | hM <;> rcases h' j.castSucc with hM' | hM' <;> simp_all

end Row

/-! ## The rows of the reduced matrix

Every row of a basis is an integer combination of the rows of the matrix.  Its last entry compares the
subset sum of its bits with a multiple of the ciphertext. -/

section Reduced

variable {pubKey : List ℕ} {enc : ℕ} {M : Fin (pubKey.length + 1) → ℤ}

/-- The subset sum of the bits of a row, when its entries are zeros and ones, is that of its entries. -/
lemma total_rowBits (h : ∀ j, M j = 0 ∨ M j = 1) :
    (total (rowBits M) pubKey : ℤ) = ∑ j : Fin pubKey.length, M j.castSucc * pubKey.get j := by
  rw [rowBits, total_ofFn, Nat.cast_sum]
  apply Finset.sum_congr rfl
  intro j _
  rcases h j.castSucc with hj | hj <;> simp [hj]

/-- The last entry of a combination of the rows: its bits against a multiple of the ciphertext. -/
lemma exists_last_eq {u : Fin (pubKey.length + 1) → ℤ} (hu : ∀ j, M j = ∑ k, u k * rows pubKey enc k j)
    (h : ∀ j, M j = 0 ∨ M j = 1) :
    ∃ k : ℤ, M (Fin.last _) = total (rowBits M) pubKey - k * enc := by
  have hcoefficients : ∀ j : Fin pubKey.length, M j.castSucc = u j.castSucc := by
    intro j
    rw [hu, rows, sum_mul_border_castSucc, Pi.zero_apply, mul_zero, add_zero]
  refine ⟨u (Fin.last _), ?_⟩
  rw [hu, rows, sum_mul_border_last, total_rowBits h]
  simp only [hcoefficients]
  ring

/-- A row that ends in a zero encrypts to the ciphertext, when more than half of the weight is in it. -/
lemma total_eq_of_last_eq_zero (hpos : ∀ w ∈ pubKey, 0 < w) (hheavy : pubKey.sum < 2 * enc)
    (h : ∀ j, M j = 0 ∨ M j = 1) (hne : M ≠ 0) {k : ℤ}
    (hlast : M (Fin.last _) = total (rowBits M) pubKey - k * enc) (hzero : M (Fin.last _) = 0) :
    total (rowBits M) pubKey = enc := by
  have hlength : (rowBits M).length = pubKey.length := by rw [rowBits, List.length_ofFn]
  have hle : total (rowBits M) pubKey ≤ pubKey.sum := total_le_sum
  have htotal : (total (rowBits M) pubKey : ℤ) = k * enc := by omega
  have henc : (0 : ℤ) < enc := by omega
  have hnonneg : 0 ≤ k := by
    by_contra hneg
    have hproduct := mul_neg_of_neg_of_pos (not_le.mp hneg) henc
    omega
  have hsmall : k < 2 := by
    by_contra hlarge
    have hproduct := mul_le_mul_of_nonneg_right (not_lt.mp hlarge) henc.le
    omega
  obtain rfl | rfl : k = 0 ∨ k = 1 := by omega
  · have hfalse := eq_false_of_total_eq_zero hpos hlength (by omega)
    have hempty : M = 0 := by
      funext j
      cases j using Fin.lastCases with
      | last => exact hzero
      | cast j =>
        have hj := hfalse _ (List.mem_ofFn.mpr ⟨j, rfl⟩)
        exact (h j.castSucc).resolve_right (of_decide_eq_false hj)
    exact absurd hempty hne
  · omega

end Reduced

/-- What the loop prints: the rows of zeros and ones, in order. -/
lemma exists_search {n : ℕ} (hn : n ≠ 0) (res : Matrix (Fin (n + 1)) (Fin (n + 1)) ℤ) :
    ∃ out, search res = .ok out ∧ ∀ l, l ∈ out ↔ ∃ i, (∀ j, res i j = 0 ∨ res i j = 1) ∧
      l = ⟨i, List.ofFn (res i), sliceToNeg (Numerals.numeral 16 (value (rowBits (res i)))) 1⟩ := by
  have hflag : ∀ i, (List.ofFn (res i)).all (fun m => m = 0 ∨ m = 1) = true ↔
      ∀ j, res i j = 0 ∨ res i j = 1 := by
    intro i
    simp only [List.all_eq_true, decide_eq_true_eq, List.forall_mem_ofFn_iff]
  refine ⟨_, mapM_ok (g := fun i : Fin (n + 1) => ⟨i, List.ofFn (res i),
    sliceToNeg (Numerals.numeral 16 (value (rowBits (res i)))) 1⟩) ?_, ?_⟩
  · intro i hi
    have hrow := (hflag i).mp (List.mem_filter.mp hi).2
    rw [line, decode_row hrow hn, ok_bind]
    rfl
  · intro l
    simp only [List.mem_map, List.mem_filter, List.mem_finRange, true_and, hflag, eq_comm]

/-! ## What the script prints

A row that ends in a zero has a subset sum that is a multiple of the ciphertext, and when more than
half of the weight is in it that multiple is the ciphertext itself.  Superincreasing weights leave one
subset for it. -/

/-- The task prints a subset sum of the public weights, by the bits of the flag. -/
lemma ensures_task (g : Gmpy2) (flag : ℕ) : Ensures (task g flag) fun out =>
    ∃ bits, bits ≠ [] ∧ value bits = flag ∧ out.1.Valid bits.length ∧
      out.2 = total bits out.1.pubKey := by
  obtain ⟨bits, hne, hnumeral, hvalue⟩ := exists_bits flag
  have hlength : (bitText bits).length = bits.length := by rw [bitText, List.length_map]
  rw [task, hnumeral, hlength]
  apply (ensures_genKey g (List.length_pos_of_ne_nil hne)).bind
  rintro key ⟨hvalid, -⟩
  have hpub : bits.length = key.pubKey.length := by
    rw [hvalid.pubKey, List.length_map, hvalid.length]
  apply (ensures_raising (encrypt_eq hpub)).bind
  rintro _ rfl
  apply (ensures_raising (intOf_numeral (by decide) (by decide))).bind
  rintro _ rfl
  exact ensures_pure ⟨bits, hne, hvalue, hvalid, rfl⟩

section Script

variable {key : Key} {bits : List Bool}

lemma Key.Valid.length_pubKey {n : ℕ} (h : key.Valid n) : key.pubKey.length = n := by
  rw [h.pubKey, List.length_map, h.length]

/-- Of the rows of zeros and ones, those that end in a zero have the bits of the message. -/
lemma rowBits_eq_iff (hvalid : key.Valid bits.length) (hsum : key.privKey.sum < key.q)
    (hheavy : key.pubKey.sum < 2 * total bits key.pubKey) (htwo : 2 ≤ bits.length)
    {res : Matrix (Fin (key.pubKey.length + 1)) (Fin (key.pubKey.length + 1)) ℤ}
    (hres : Rebases res (rows key.pubKey (total bits key.pubKey)))
    {i : Fin (key.pubKey.length + 1)} (h : ∀ j, res i j = 0 ∨ res i j = 1) :
    rowBits (res i) = bits ↔ res i (Fin.last _) = 0 := by
  have hlength := hvalid.length_pubKey
  have hpos : ∀ w ∈ key.pubKey, 0 < w := by
    rw [hvalid.pubKey]
    exact pos_of_mem_map hvalid.superincreasing hvalid.coprime hsum
  have hle := List.length_le_sum_of_one_le key.pubKey hpos
  have henc : 1 < total bits key.pubKey := by omega
  have hdet : (rows key.pubKey (total bits key.pubKey)).det ≠ 0 := by
    rw [rows, det_border_right]
    omega
  obtain ⟨u, hu⟩ := hres.exists_combination i
  obtain ⟨k, hk⟩ := exists_last_eq hu h
  constructor
  · intro hbits
    rcases h (Fin.last _) with hzero | hone
    · exact hzero
    · -- a row that ends in a one encrypts to one more than a multiple of the ciphertext
      rw [hbits, hone] at hk
      have hdvd : (total bits key.pubKey : ℤ) ∣ 1 := ⟨1 - k, hk.trans (by ring)⟩
      have hsmall := Int.le_of_dvd one_pos hdvd
      omega
  · intro hzero
    have htotal := total_eq_of_last_eq_zero hpos hheavy h (hres.row_ne_zero hdet i) hk hzero
    apply eq_of_total_map_eq hvalid.superincreasing hvalid.one_lt hvalid.coprime hsum
    · rw [rowBits, List.length_ofFn, hlength, hvalid.length]
    · rw [hvalid.length]
    · rw [← hvalid.pubKey]
      exact htotal

lemma exists_ofFn_eq {α : Type} {l : List α} {n : ℕ} (h : l.length = n) :
    ∃ f : Fin n → α, List.ofFn f = l := by
  subst h
  exact ⟨l.get, List.ofFn_get l⟩

/-- The bits of a message and a zero are a row of some basis. -/
lemma exists_rebases {pubKey : List ℕ} (hlength : bits.length = pubKey.length) :
    ∃ res, Rebases res (rows pubKey (total bits pubKey)) ∧
      (∀ j, res (Fin.last _) j = 0 ∨ res (Fin.last _) j = 1) ∧ rowBits (res (Fin.last _)) = bits := by
  obtain ⟨f, rfl⟩ := exists_ofFn_eq hlength
  set below : Fin pubKey.length → ℤ := fun j => (f j).toNat with hbelow
  set enc := total (List.ofFn f) pubKey with henc
  have hentry : ∀ j : Fin pubKey.length,
      (border 0 below 1 * rows pubKey enc) (Fin.last _) j.castSucc = ((f j).toNat : ℤ) := by
    intro j
    rw [Matrix.mul_apply, rows, sum_mul_border_castSucc, border_last_castSucc, Pi.zero_apply,
      mul_zero, add_zero, hbelow]
  have hlast : (border 0 below 1 * rows pubKey enc) (Fin.last _) (Fin.last _) = 0 := by
    rw [Matrix.mul_apply, rows, sum_mul_border_last, border_last_last, henc, total_ofFn]
    simp [hbelow]
  refine ⟨border 0 below 1 * rows pubKey enc, ⟨_, ?_, rfl⟩, ?_, ?_⟩
  · rw [det_border_below]
    exact isUnit_one
  · intro j
    cases j using Fin.lastCases with
    | last => exact .inl hlast
    | cast j =>
      rw [hentry]
      cases f j
      · exact .inl rfl
      · exact .inr rfl
  · rw [rowBits]
    congr 1
    funext j
    rw [hentry]
    cases f j <;> rfl

end Script

/-- **What the search can be relied on for.**  For a flag of more than one bit and a key under which
every message survives, when more than half of the public weight is in the ciphertext: from any basis of
the lattice the script prints, with the texts that the numbers of the rows make without their last
digits, rows that write the flag exactly if they end in a zero, and at most one of these; and from some
basis it does print the flag. -/
theorem search_decodes (g : Gmpy2) {flag : ℕ} (hflag : 1 < flag) {draws rest : List ℕ} {key : Key}
    {enc : ℕ} (hrun : task g flag draws = .ok ((key, enc), rest)) (hsum : key.privKey.sum < key.q)
    (hheavy : key.pubKey.sum < 2 * enc) :
    (∀ res, Rebases res (rows key.pubKey enc) → ∃ out, search res = .ok out ∧
      (∀ l ∈ out, ∃ x, decode l.row = .ok x ∧
        l.text = sliceToNeg (Numerals.numeral 16 x) 1 ∧ (x = flag ↔ l.row.getLast? = some 0)) ∧
      ∀ l ∈ out, ∀ l' ∈ out, l.row.getLast? = some 0 → l'.row.getLast? = some 0 → l = l') ∧
    ∃ res, Rebases res (rows key.pubKey enc) ∧ ∃ out, search res = .ok out ∧
      ∃ l ∈ out, decode l.row = .ok flag := by
  obtain ⟨bits, hne, rfl, hvalid, htotal⟩ := (ensures_task g flag draws).2 _ _ hrun
  obtain rfl : enc = total bits key.pubKey := htotal
  have htwo : 2 ≤ bits.length := by
    by_contra hshort
    have hone : bits.length = 1 := by
      have hpos := List.length_pos_of_ne_nil hne
      omega
    obtain ⟨b, rfl⟩ := List.length_eq_one_iff.mp hone
    cases b <;> exact absurd hflag (by decide)
  have hn : key.pubKey.length ≠ 0 := by
    rw [hvalid.length_pubKey]
    omega
  have hgetLast : ∀ M : Fin (key.pubKey.length + 1) → ℤ,
      (List.ofFn M).getLast? = some (M (Fin.last _)) := by
    intro M
    rw [List.ofFn_succ_last, List.getLast?_concat]
  constructor
  · intro res hres
    obtain ⟨out, hout, hmem⟩ := exists_search hn res
    refine ⟨out, hout, ?_, ?_⟩
    · intro l hl
      obtain ⟨i, hi, rfl⟩ := (hmem l).mp hl
      refine ⟨_, decode_row hi hn, rfl, ?_⟩
      rw [hgetLast, Option.some.injEq, ← rowBits_eq_iff hvalid hsum hheavy htwo hres hi]
      constructor
      · apply value_injective
        rw [rowBits, List.length_ofFn, hvalid.length_pubKey]
      · exact congrArg value
    · intro l hl l' hl' hlast hlast'
      obtain ⟨i, hi, rfl⟩ := (hmem l).mp hl
      obtain ⟨i', hi', rfl⟩ := (hmem l').mp hl'
      rw [hgetLast, Option.some.injEq] at hlast hlast'
      have hbits := (rowBits_eq_iff hvalid hsum hheavy htwo hres hi).mpr hlast
      have hbits' := (rowBits_eq_iff hvalid hsum hheavy htwo hres hi').mpr hlast'
      have hdet : (rows key.pubKey (total bits key.pubKey)).det ≠ 0 := by
        rw [rows, det_border_right]
        omega
      obtain rfl := hres.row_injective hdet
        (eq_of_rowBits_eq hi hi' (hlast.trans hlast'.symm) (hbits.trans hbits'.symm))
      rfl
  · obtain ⟨res, hres, hrow, hbits⟩ := exists_rebases hvalid.length_pubKey.symm
    obtain ⟨out, hout, hmem⟩ := exists_search hn res
    refine ⟨res, hres, out, hout, _, (hmem _).mpr ⟨_, hrow, rfl⟩, ?_⟩
    rw [decode_row hrow hn, hbits]

/-- A run for two bits that draws the private weights 1 and 3, the modulus 5 and the multiplier 1. -/
lemma task_three : task searchGmpy2 3 [1, 3, 5, 1] = .ok ((⟨[1, 3], 5, 1, [1, 3]⟩, 4), []) := by
  have hredraw : redrawR searchGmpy2 5 1 [] = .ok (1, []) := by
    rw [redrawR, if_pos (by decide)]
  have hgenKey : genKey searchGmpy2 2 [1, 3, 5, 1] = .ok (⟨[1, 3], 5, 1, [1, 3]⟩, []) := by
    have hrun : genKey searchGmpy2 2 [1, 3, 5, 1] = (redrawR searchGmpy2 5 1 [] >>= fun p =>
        .ok (⟨[1, 3], 5, p.1, [1, 3].map fun w => p.1 * w % 5⟩, p.2)) := rfl
    rw [hrun, hredraw]
    rfl
  have hnumeral : Numerals.numeral 2 3 = ['1', '1'] := by decide
  have hrun : task searchGmpy2 3 [1, 3, 5, 1] = (genKey searchGmpy2 2 [1, 3, 5, 1] >>= fun p =>
      (do
        let enc ← raising (encrypt (Numerals.numeral 2 3) p.1.pubKey)
        return (p.1, ← raising (intOf enc 2)) : Run PyError (Key × ℕ)) p.2) := by
    rw [task, hnumeral]
    rfl
  rw [hrun, hgenKey]
  decide

theorem search_decodes_three :
    ∃ res, Rebases res (rows [1, 3] 4) ∧ ∃ out, search res = .ok out ∧
      ∃ l ∈ out, decode l.row = .ok 3 :=
  (search_decodes searchGmpy2 (by decide) task_three (by decide) (by decide)).2

end Whuctf.Lattice
