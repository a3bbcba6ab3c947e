import Whuctf.Library.Decimal
import Whuctf.Library.Receive

/-!
# The service of the lunar challenge

`Task` of `chall.py` receives a location and compares fixed positions of its text with the position it
expects, south latitude 33.888 and east longitude 151.1975 to 151.1985.

The comparison is one of values for numerals that are written out: without zeros in front, with four
digits after the point of the longitude, and without a space after the comma (`check_eq_inRange_iff`).
The reference solver sends a space.  To compare the two, a location is a pair of numerals, whose text the
check reads and whose value is a rational; both sides are brought down to the same digits, those of the
numeral before the point and the first three or four behind it.

`_recvall`, which `io_template/chall.py` repeats, takes a part that is shorter than its buffer for the end
of the message (`recvalls_eq_strip_iff`).
-/

namespace Whuctf

open Python Receive

/-! ## Receiving -/

/-- `Task._recvall`, on the parts that `recv(2048)` returns, with those it has not read. -/
def Lunar.recvall (parts : List (List Char)) : Option (List Char × List (List Char)) :=
  Receive.recvall 2048 [] parts

/-- `Task._recvall` of `io_template/chall.py`, which has the same loop and the same size. -/
def IoTemplate.recvall (parts : List (List Char)) : Option (List Char × List (List Char)) :=
  Receive.recvall 2048 [] parts

namespace Lunar

/-- **Messages in parts.**  Both services get a message back, however it is cut, exactly when some part
is shorter than the buffer and only whitespace comes after the first such part. -/
theorem recvalls_eq_strip_iff (parts : List (List Char)) :
    ((∃ rest, recvall parts = some (strip parts.flatten, rest)) ∧
      ∃ rest, IoTemplate.recvall parts = some (strip parts.flatten, rest)) ↔
      ArrivesWhole 2048 parts := by
  have hlunar : recvall parts = Receive.recvall 2048 [] parts := rfl
  have htemplate : IoTemplate.recvall parts = Receive.recvall 2048 [] parts := rfl
  rw [hlunar, htemplate, and_self, recvall_eq_strip_iff]

/-- A location cut after five bytes loses what follows, and on a message that fills the buffer the
service waits for more. -/
theorem recvall_cut :
    (¬∃ rest, recvall ["-33.8".toList, "88,151.1980\n".toList] =
      some (strip ["-33.8".toList, "88,151.1980\n".toList].flatten, rest)) ∧
    recvall [List.replicate 2048 'A'] = none := by
  constructor
  · rintro ⟨rest, hrecv⟩
    have hmessage := congrArg (Option.map Prod.fst) hrecv
    simp only [Option.map_some] at hmessage
    revert hmessage
    decide
  · rw [recvall, Receive.recvall, List.length_replicate, if_neg (by decide)]
    rfl

/-! ## The check -/

/-- `Task.check`, on the text of the client: what stands at the fixed positions is compared, and whatever
raises, the assignment to two names or `int`, is caught and refuses the location. -/
def check (location : List Char) : Bool :=
  match location.splitOn ',' with
  | [latitude, longitude] =>
      if latitude.take 7 = "-33.888".toList ∧ longitude.take 6 = "151.19".toList then
        -- `int` also takes a sign or a blank, but two characters with one of these hold at most one
        -- digit, a number below 75, so it makes no difference that `intOf` refuses a sign
        match intOf (slice longitude 6 8) 10 with
        | .ok x => 75 ≤ x ∧ x ≤ 85
        | .error _ => false
      else false
  | _ => false

/-- The text of a location, with spaces after the comma. -/
def location (latitude longitude : Decimal) (spaces : ℕ) : List Char :=
  latitude.text ++ ',' :: (List.replicate spaces ' ' ++ longitude.text)

/-- The position that is looked for: south latitude 33.888, and an east longitude between the two
bounds. -/
def InRange (latitude longitude : Decimal) : Prop :=
  -33889 / 1000 < latitude.value ∧ latitude.value ≤ -33888 / 1000 ∧
    1511975 / 10000 ≤ longitude.value ∧ longitude.value < 1511986 / 10000

/-- The spelling that the check expects: no space after the comma, no zeros in front, and four digits
after the point of the longitude. -/
structure WrittenOut (latitude longitude : Decimal) (spaces : ℕ) : Prop where
  no_space : spaces = 0
  latitude_head : latitude.whole.head? ≠ some 0
  longitude_head : longitude.whole.head? ≠ some 0
  longitude_digits : 4 ≤ longitude.fraction.length

/-! ## What the check reads

The check takes slices of the text at fixed places.  For the text of two numerals each slice is
compared with the digits of a numeral, as far as the slice reaches. -/

lemma splitOn_location (latitude longitude : Decimal) (spaces : ℕ) :
    (location latitude longitude spaces).splitOn ',' =
      [latitude.text, List.replicate spaces ' ' ++ longitude.text] := by
  have hlatitude : ',' ∉ latitude.text := latitude.notMem_text (by decide)
  have hlongitude : ',' ∉ List.replicate spaces ' ' ++ longitude.text := by
    have htext : ',' ∉ longitude.text := longitude.notMem_text (by decide)
    simp [htext]
  rw [location, List.splitOn_append_cons_self, List.splitOn_eq_singleton hlatitude,
    List.splitOn_eq_singleton hlongitude]
  rfl

/-- The latitude is compared with three digits after the point. -/
lemma latitude_iff (d : Decimal) : d.text.take 7 = "-33.888".toList ↔
    d.negative = true ∧ d.whole = [3, 3] ∧ d.fraction.take 3 = [8, 8, 8] :=
  Decimal.take_text_eq_minus_iff (p := [3, 3]) (q := [8, 8, 8]) (by decide) d

/-- The longitude is compared with two digits after the point, and not behind a space. -/
lemma longitude_iff (d : Decimal) (spaces : ℕ) :
    (List.replicate spaces ' ' ++ d.text).take 6 = "151.19".toList ↔
      spaces = 0 ∧ d.negative = false ∧ d.whole = [1, 5, 1] ∧ d.fraction.take 2 = [1, 9] := by
  cases spaces with
  | zero =>
    simp only [List.replicate_zero, List.nil_append, true_and]
    exact Decimal.take_text_eq_iff (p := [1, 5, 1]) (q := [1, 9]) (by decide) (by decide) d
  | succ spaces => simp [List.replicate_succ]

lemma slice_longitude {d : Decimal} (hnegative : d.negative = false) (hwhole : d.whole = [1, 5, 1])
    (hfraction : d.fraction.take 2 = [1, 9]) :
    slice d.text 6 8 = Decimal.digits ((d.fraction.drop 2).take 2) := by
  obtain ⟨rest, hrest⟩ : ∃ rest, rest = d.fraction.drop 2 := ⟨_, rfl⟩
  have hdigits : d.fraction = 1 :: 9 :: rest := by
    rw [← List.take_append_drop 2 d.fraction, hfraction, ← hrest]
    rfl
  have htext : d.text = "151.19".toList ++ Decimal.digits rest := by
    rw [Decimal.text, hnegative, hwhole, hdigits]
    rfl
  rw [← hrest, htext, slice, ← Decimal.take_digits]
  rfl

lemma strip_digits (ds : List (Fin 10)) : strip (Decimal.digits ds) = Decimal.digits ds := by
  apply strip_eq
  intro c hc
  obtain ⟨e, -, rfl⟩ := List.mem_map.mp hc
  exact isSpace_digitChar e.val (by omega)

/-- `int` reads digits as the number they denote, and refuses an empty text. -/
lemma intOf_digits (ds : List (Fin 10)) : intOf (Decimal.digits ds) 10 =
    if ds = [] then .error .valueError else .ok (Decimal.number ds) := by
  rw [intOf, strip_digits]
  split_ifs with hds
  · rw [hds]
    rfl
  · have hparse := Numerals.parse_textOf (b := 10) (by decide)
      (show ds.map Fin.val ≠ [] by simpa using hds) (by
        intro d hd
        obtain ⟨e, -, rfl⟩ := List.mem_map.mp hd
        exact e.isLt)
    have htext : Numerals.textOf (ds.map Fin.val) = Decimal.digits ds := by
      rw [Numerals.textOf, List.map_map]
      rfl
    rw [htext] at hparse
    rw [hparse]
    rfl

/-- The check, digit by digit: the places it compares are digits of the latitude and of the longitude,
and a space after the comma moves the latter. -/
lemma check_iff (latitude longitude : Decimal) (spaces : ℕ) :
    check (location latitude longitude spaces) = true ↔
      (latitude.negative = true ∧ latitude.whole = [3, 3] ∧ latitude.fraction.take 3 = [8, 8, 8]) ∧
      (spaces = 0 ∧ longitude.negative = false ∧ longitude.whole = [1, 5, 1] ∧
        longitude.fraction.take 2 = [1, 9]) ∧
      75 ≤ Decimal.number ((longitude.fraction.drop 2).take 2) ∧
      Decimal.number ((longitude.fraction.drop 2).take 2) ≤ 85 := by
  rw [check, splitOn_location]
  simp only [latitude_iff, longitude_iff]
  by_cases hlatitude : latitude.negative = true ∧ latitude.whole = [3, 3] ∧
      latitude.fraction.take 3 = [8, 8, 8]
  · by_cases hlongitude : spaces = 0 ∧ longitude.negative = false ∧ longitude.whole = [1, 5, 1] ∧
        longitude.fraction.take 2 = [1, 9]
    · rw [if_pos ⟨hlatitude, hlongitude⟩]
      obtain ⟨rfl, hnegative, hwhole, hfraction⟩ := id hlongitude
      simp only [List.replicate_zero, List.nil_append, slice_longitude hnegative hwhole hfraction,
        intOf_digits]
      by_cases hempty : (longitude.fraction.drop 2).take 2 = []
      · rw [if_pos hempty, hempty]
        simp [Decimal.number]
      · rw [if_neg hempty]
        simp [hlatitude, hlongitude]
    · rw [if_neg fun h => hlongitude h.2]
      simp [hlongitude]
  · rw [if_neg fun h => hlatitude h.1]
    simp [hlatitude]

/-! ## What the check decides

On the side of the values the same digits appear, since a bound with three or four digits is decided by
the digits before it.  What is left over is the spelling, a zero in front or a digit that is missing. -/

/-- The latitude in terms of digits, three of them after the point. -/
lemma latitude_value_iff (d : Decimal) :
    -33889 / 1000 < d.value ∧ d.value ≤ -33888 / 1000 ↔
      d.negative = true ∧ d.scaled 3 = 33888 := by
  have hlow := d.le_magnitude_iff 3 33888
  have hhigh := d.magnitude_lt_iff 3 33889
  have hnonneg := d.magnitude_nonneg
  push_cast at hlow hhigh
  cases hsign : d.negative with
  | false =>
    simp only [Decimal.value, hsign, Bool.false_eq_true, if_false, false_and, iff_false]
    rintro ⟨-, hle⟩
    linarith
  | true =>
    simp only [Decimal.value, hsign, if_true, true_and]
    constructor
    · rintro ⟨hlt, hle⟩
      have hge := hlow.mp (by linarith)
      have hlt' := hhigh.mp (by linarith)
      omega
    · intro hscaled
      have hge := hlow.mpr (by omega)
      have hlt := hhigh.mpr (by omega)
      constructor <;> linarith

/-- The longitude in terms of digits, four of them after the point. -/
lemma longitude_value_iff (d : Decimal) :
    1511975 / 10000 ≤ d.value ∧ d.value < 1511986 / 10000 ↔
      d.negative = false ∧ 1511975 ≤ d.scaled 4 ∧ d.scaled 4 < 1511986 := by
  have hlow := d.le_magnitude_iff 4 1511975
  have hhigh := d.magnitude_lt_iff 4 1511986
  have hnonneg := d.magnitude_nonneg
  push_cast at hlow hhigh
  rw [← hlow, ← hhigh]
  cases hsign : d.negative with
  | true =>
    simp only [Decimal.value, hsign, if_true, Bool.true_eq_false, false_and, iff_false]
    rintro ⟨hle, -⟩
    linarith
  | false =>
    simp only [Decimal.value, hsign, Bool.false_eq_true, if_false, true_and]
    constructor
    · rintro ⟨hle, hlt⟩
      constructor <;> linarith
    · rintro ⟨hle, hlt⟩
      constructor <;> linarith

/-- The position in terms of digits: three of the latitude behind the point, and four of the longitude.
-/
lemma inRange_iff (latitude longitude : Decimal) : InRange latitude longitude ↔
    (latitude.negative = true ∧ latitude.scaled 3 = 33888) ∧
      longitude.negative = false ∧ 1511975 ≤ longitude.scaled 4 ∧ longitude.scaled 4 < 1511986 := by
  rw [InRange, ← and_assoc, latitude_value_iff, longitude_value_iff]

/-- Digits of the latitude: three eights after the point, which no shorter numeral has. -/
lemma leading_three_iff (d : Decimal) :
    Decimal.number (d.leading 3) = 888 ↔ d.fraction.take 3 = [8, 8, 8] := by
  have hnumber : Decimal.number (d.leading 3) = 888 ↔ d.leading 3 = [8, 8, 8] := by
    constructor
    · intro h
      exact Decimal.eq_of_number_eq (d.length_leading 3) h
    · intro h
      rw [h]
      rfl
  rw [hnumber, Decimal.leading]
  rcases d.fraction with _ | ⟨a, _ | ⟨b, _ | ⟨c, rest⟩⟩⟩
  · decide
  · simp
  · simp
  · simp

/-- Digits of the longitude: the four after the point, where there are four. -/
lemma leading_four_iff {d : Decimal} (hlength : 4 ≤ d.fraction.length) :
    1975 ≤ Decimal.number (d.leading 4) ∧ Decimal.number (d.leading 4) < 1986 ↔
      d.fraction.take 2 = [1, 9] ∧ 75 ≤ Decimal.number ((d.fraction.drop 2).take 2) ∧
        Decimal.number ((d.fraction.drop 2).take 2) ≤ 85 := by
  obtain ⟨a, b, hab⟩ : ∃ a b, d.fraction.take 2 = [a, b] :=
    List.length_eq_two.mp (by rw [List.length_take]; omega)
  obtain ⟨tail, htail⟩ : ∃ tail, tail = (d.fraction.drop 2).take 2 := ⟨_, rfl⟩
  have hlt := Decimal.number_lt tail
  have htwo : tail.length = 2 := by
    rw [htail, List.length_take, List.length_drop]
    omega
  have hleading : d.leading 4 = [a, b] ++ tail := by
    rw [Decimal.leading, List.take_append_of_le_length hlength, ← hab, htail, ← List.take_add]
  have hnumber : Decimal.number (d.leading 4) = (10 * a.val + b.val) * 100 + Decimal.number tail := by
    rw [hleading, Decimal.number_append, htwo]
    simp [Decimal.number, Nat.ofDigits_cons]
    ring
  rw [htwo] at hlt
  rw [hab, ← htail, hnumber]
  constructor
  · intro h
    have ha : a = 1 := Fin.ext (by omega)
    have hb : b = 9 := Fin.ext (by omega)
    subst ha hb
    exact ⟨rfl, by omega, by omega⟩
  · rintro ⟨hdigits, hlow, hhigh⟩
    cases hdigits
    constructor <;> omega

/-- The digits before the point, from the number they denote, where there is no zero in front. -/
lemma whole_eq_iff (d : Decimal) (ds : List (Fin 10)) (hds : ds.head? ≠ some 0) :
    d.whole = ds ↔ d.whole.head? ≠ some 0 ∧ Decimal.number d.whole = Decimal.number ds := by
  constructor
  · rintro rfl
    exact ⟨hds, rfl⟩
  · rintro ⟨hhead, hnumber⟩
    exact Decimal.eq_of_number_eq_of_head hhead hds hnumber

lemma latitude_scaled_iff (d : Decimal) : d.whole = [3, 3] ∧ d.fraction.take 3 = [8, 8, 8] ↔
    d.scaled 3 = 33888 ∧ d.whole.head? ≠ some 0 := by
  have hwhole := whole_eq_iff d [3, 3] (by decide)
  have hnumber : Decimal.number [3, 3] = 33 := rfl
  have hscaled : d.scaled 3 = 33888 ↔
      Decimal.number d.whole = 33 ∧ Decimal.number (d.leading 3) = 888 := by
    have hlt := Decimal.number_lt (d.leading 3)
    rw [d.length_leading] at hlt
    rw [Decimal.scaled]
    omega
  rw [hwhole, hnumber, ← leading_three_iff, hscaled]
  tauto

lemma longitude_scaled_iff (d : Decimal) :
    d.whole = [1, 5, 1] ∧ d.fraction.take 2 = [1, 9] ∧
        75 ≤ Decimal.number ((d.fraction.drop 2).take 2) ∧
        Decimal.number ((d.fraction.drop 2).take 2) ≤ 85 ↔
      (1511975 ≤ d.scaled 4 ∧ d.scaled 4 < 1511986) ∧ d.whole.head? ≠ some 0 ∧
        4 ≤ d.fraction.length := by
  have hwhole := whole_eq_iff d [1, 5, 1] (by decide)
  have hnumber : Decimal.number [1, 5, 1] = 151 := rfl
  have hscaled : 1511975 ≤ d.scaled 4 ∧ d.scaled 4 < 1511986 ↔
      Decimal.number d.whole = 151 ∧
        1975 ≤ Decimal.number (d.leading 4) ∧ Decimal.number (d.leading 4) < 1986 := by
    have hlt := Decimal.number_lt (d.leading 4)
    rw [d.length_leading] at hlt
    rw [Decimal.scaled]
    omega
  by_cases hlength : 4 ≤ d.fraction.length
  · rw [hwhole, hnumber, ← leading_four_iff hlength, hscaled]
    tauto
  · constructor
    · rintro ⟨-, -, hlow, -⟩
      -- fewer than two digits are left
      have hlt := Decimal.number_lt ((d.fraction.drop 2).take 2)
      have hshort : ((d.fraction.drop 2).take 2).length ≤ 1 := by
        rw [List.length_take, List.length_drop]
        omega
      have hpow := Nat.pow_le_pow_right (show 0 < 10 by decide) hshort
      omega
    · rintro ⟨-, -, hfour⟩
      exact absurd hfour hlength

/-- The check accepts the position when it is written out. -/
lemma check_iff_writtenOut (latitude longitude : Decimal) (spaces : ℕ) :
    check (location latitude longitude spaces) = true ↔
      InRange latitude longitude ∧ WrittenOut latitude longitude spaces := by
  have hlatitude := latitude_scaled_iff latitude
  have hlongitude := longitude_scaled_iff longitude
  rw [check_iff, inRange_iff]
  constructor
  · rintro ⟨⟨hnegative, hlat⟩, ⟨hspaces, hpositive, hwhole, hfraction⟩, hdigits⟩
    obtain ⟨hscaled, hhead⟩ := hlatitude.mp hlat
    obtain ⟨hrange, hhead', hlength⟩ := hlongitude.mp ⟨hwhole, hfraction, hdigits⟩
    exact ⟨⟨⟨hnegative, hscaled⟩, hpositive, hrange⟩, ⟨hspaces, hhead, hhead', hlength⟩⟩
  · rintro ⟨⟨⟨hnegative, hscaled⟩, hpositive, hrange⟩, ⟨hspaces, hhead, hhead', hlength⟩⟩
    obtain ⟨hwhole, hfraction, hdigits⟩ := hlongitude.mpr ⟨hrange, hhead', hlength⟩
    exact ⟨⟨hnegative, hlatitude.mpr ⟨hscaled, hhead⟩⟩, ⟨hspaces, hpositive, hwhole, hfraction⟩,
      hdigits⟩

/-- **The location check.**  For every location of two plain numerals the check decides by value exactly
when the position is not the one looked for, or is written out. -/
theorem check_eq_inRange_iff (latitude longitude : Decimal) (spaces : ℕ) :
    (check (location latitude longitude spaces) = true ↔ InRange latitude longitude) ↔
      (InRange latitude longitude → WrittenOut latitude longitude spaces) := by
  rw [check_iff_writtenOut]
  tauto

/-- What the reference solver sends is the position, and is refused for the space. -/
theorem check_space :
    check "-33.888483571971264, 151.19815476465308".toList = false ∧
      ∃ latitude longitude : Decimal,
        location latitude longitude 1 = "-33.888483571971264, 151.19815476465308".toList ∧
          InRange latitude longitude := by
  refine ⟨by decide, ⟨true, [3, 3], [8, 8, 8, 4, 8, 3, 5, 7, 1, 9, 7, 1, 2, 6, 4], by decide⟩,
    ⟨false, [1, 5, 1], [1, 9, 8, 1, 5, 4, 7, 6, 4, 6, 5, 3, 0, 8], by decide⟩, by decide, ?_⟩
  rw [inRange_iff]
  decide

end Lunar

end Whuctf
