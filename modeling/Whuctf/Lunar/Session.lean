import Whuctf.Lunar.Task

/-!
# A session of the lunar challenge

`Task.handle` asks for an option and then for a location, and sends the flag when the check accepts the
location.  Both are received with `_recvall`, so what the check reads depends on how the network cuts what
the client sends: the option or a part of the location can be taken for the whole, and what is left of a
message is read as the next one.

A cut can lose the flag but not win it.  Whatever the cut, a client that sends two numerals gets the flag
only when they are the position looked for and written out: what the check accepts begins with a latitude
that has the one minus sign of the text, and ends behind eight characters of the longitude, so it was read
from these numerals.  And then there is a cut with which the client gets it, of a location of any length
(`award_iff`).  The reference solver sends a space and is refused under every cut.
-/

namespace Whuctf.Lunar

open Python Receive

/-! ## The program -/

inductive Outcome
  | waiting | awarded | refused | away | closed
  deriving DecidableEq, Repr

/-- `guard_menu`, the two options; it ends with a newline, and is sent without another. -/
def guardMenu : List Char := "\n1.Tell me her position\n2.Go away\n".toList

/-- `self.send(msg)`, with its newline, which is sent unless it is turned off. -/
def line (msg : List Char) : List Char := msg ++ ['\n']

/-- `Task.handle`, on the parts that arrive: what is sent, and how it ends. -/
def handle (banner flag : List Char) (parts : List (List Char)) : List (List Char) × Outcome :=
  let greeting := [banner, line "You have two choices. Tell me where she is or leave now.".toList,
    guardMenu, "[-] ".toList]
  match recvall parts with
  | none => (greeting, .waiting)
  | some (option, parts) =>
      if option = "1".toList then
        let asked := greeting ++ [line ("Please give me Latitude and longitude that I can directly to " ++
          "search in the google map: ").toList, line [], "[-] ".toList]
        match recvall parts with
        | none => (asked, .waiting)
        | some (username, _) =>
            if check (strip username) then
              (asked ++ [line "Unbelievable! How did you get it!".toList,
                line "This is my award:".toList, line flag], .awarded)
            else (asked ++ [line "You are a bad wingman.".toList], .refused)
      else if option = "2".toList then (greeting ++ [line "Stay away from here!".toList], .away)
      else (greeting, .closed)

/-! ## What the check has read

A session that is awarded has received two messages, each a run of parts.  What the check accepted is
one of these, and it fixes the first characters of the latitude and the first eight of the longitude. -/

/-- A text around what stripping leaves of it, which is a part of it that hangs together. -/
lemma exists_strip (text : List Char) : ∃ before after, text = before ++ strip text ++ after := by
  refine ⟨text.takeWhile isSpace, ((text.dropWhile isSpace).reverse.takeWhile isSpace).reverse, ?_⟩
  have hback : strip text ++ ((text.dropWhile isSpace).reverse.takeWhile isSpace).reverse =
      text.dropWhile isSpace := by
    rw [strip, ← List.reverse_append, List.takeWhile_append_dropWhile, List.reverse_reverse]
  rw [List.append_assoc, hback, List.takeWhile_append_dropWhile]

/-- A session is awarded for two messages that the parts begin with. -/
lemma outcome_eq_awarded_iff (banner flag : List Char) (parts : List (List Char)) :
    (handle banner flag parts).2 = .awarded ↔
      ∃ option rest username rest', recvall parts = some (option, rest) ∧ option = "1".toList ∧
        recvall rest = some (username, rest') ∧ check (strip username) = true := by
  rw [handle]
  cases hoption : recvall parts with
  | none => simp
  | some first =>
      obtain ⟨option, rest⟩ := first
      by_cases hone : option = "1".toList
      · simp only [if_pos hone]
        cases husername : recvall rest with
        | none => simp [husername]
        | some second =>
            obtain ⟨username, rest'⟩ := second
            by_cases hcheck : check (strip username) = true
            · simp [hcheck, hone, husername]
            · simp [hcheck, husername]
      · simp only [if_neg hone]
        have hnot : ¬∃ option' rest' username rest'', some (option, rest) = some (option', rest') ∧
            option' = "1".toList ∧ recvall rest' = some (username, rest'') ∧
              check (strip username) = true := by
          rintro ⟨option', rest', username, rest'', heq, hone', -⟩
          cases heq
          exact hone hone'
        split_ifs
        · exact iff_of_false nofun hnot
        · exact iff_of_false nofun hnot

/-- What is received is part of what was sent, and the parts that were not read come behind it. -/
lemma recvall_eq_some {parts rest : List (List Char)} {message : List Char}
    (h : recvall parts = some (message, rest)) :
    ∃ before after, parts.flatten = before ++ message ++ after ++ rest.flatten := by
  obtain ⟨full, part, rfl, -, -, rfl⟩ := recvall_eq_some_iff.mp h
  obtain ⟨before, after, htext⟩ := exists_strip (full.flatten ++ part)
  refine ⟨before, after, ?_⟩
  rw [List.nil_append, ← htext]
  simp

/-- A number of two characters is made of two digits. -/
lemma two_digits {text : List Char} {x : ℕ} (h : intOf text 10 = .ok x) (hx : 10 ≤ x)
    (hlength : text.length ≤ 2) : text.length = 2 ∧ '\n' ∉ text := by
  obtain ⟨before, after, htext⟩ := exists_strip text
  have hparse : Numerals.parse 10 (strip text) = some x := by
    rw [intOf] at h
    cases hparse : Numerals.parse 10 (strip text) with
    | none => rw [hparse] at h; cases h
    | some y => rw [hparse] at h; cases h; rfl
  obtain ⟨hbound, hdigits⟩ := Numerals.of_parse_eq_some (by decide) hparse
  have htwo : 2 ≤ (strip text).length := by
    by_contra hshort
    have hpow := Nat.pow_le_pow_right (show 0 < 10 by decide) (show (strip text).length ≤ 1 by omega)
    omega
  have hlengths := congrArg List.length htext
  rw [List.length_append, List.length_append] at hlengths
  obtain rfl : before = [] := List.eq_nil_of_length_eq_zero (by omega)
  obtain rfl : after = [] := List.eq_nil_of_length_eq_zero (by omega)
  rw [List.nil_append, List.append_nil] at htext
  rw [htext]
  refine ⟨by omega, fun hmem => ?_⟩
  have hdigit := hdigits '\n' hmem
  revert hdigit
  decide

/-- What the check accepts is a latitude, a comma and a longitude. -/
lemma of_check {text : List Char} (h : check text = true) :
    ∃ latitude longitude, text = latitude ++ ',' :: longitude ∧ latitude.take 7 = "-33.888".toList ∧
      longitude.take 6 = "151.19".toList ∧
      ∃ x, intOf (slice longitude 6 8) 10 = .ok x ∧ 75 ≤ x ∧ x ≤ 85 := by
  have hjoin := @List.intercalate_splitOn Char text _ _ ','
  rw [check] at h
  cases hsplit : text.splitOn ',' with
  | nil => simp [hsplit] at h
  | cons latitude rest =>
      cases rest with
      | nil => simp [hsplit] at h
      | cons longitude rest =>
          cases rest with
          | cons other rest => simp [hsplit] at h
          | nil =>
              rw [hsplit] at h hjoin
              simp only at h
              split_ifs at h with hparts
              cases hint : intOf (slice longitude 6 8) 10 with
              | error e => simp [hint] at h
              | ok x =>
                  simp only [hint, Bool.decide_and, Bool.and_eq_true, decide_eq_true_iff] at h
                  refine ⟨latitude, longitude, ?_, hparts.1, hparts.2, x, hint, h⟩
                  rw [← hjoin]
                  simp

/-! ## Cuts

The parts are those of one text, so what a message has is a stretch of it.  The latitude begins with
the only minus sign, and the comma is the only one, so the stretch is at the place of the numerals. -/

/-- What a client sends that answers with option 1 and a location. -/
def answers (latitude longitude : Decimal) (spaces : ℕ) : List Char :=
  line "1".toList ++ line (location latitude longitude spaces)

section Cuts

variable {latitude longitude : Decimal} {spaces : ℕ}

/-- A numeral has a minus sign in front only, if it has one. -/
lemma eq_minus_of_mem {d : Decimal} (h : '-' ∈ d.text) :
    ∃ rest, d.text = '-' :: rest ∧ '-' ∉ rest := by
  have hbody : '-' ∉ Decimal.body d.whole d.fraction := by
    have hdigits : ∀ ds : List (Fin 10), '-' ∉ Decimal.digits ds := by
      intro ds hmem
      obtain ⟨e, -, heq⟩ := List.mem_map.mp hmem
      exact Decimal.digitChar_notMem e (by rw [heq]; decide)
    unfold Decimal.body
    split_ifs <;> simp [hdigits]
  rw [Decimal.text] at h ⊢
  cases hsign : d.negative with
  | false =>
      rw [hsign] at h
      exact absurd h hbody
  | true => exact ⟨_, rfl, hbody⟩

/-- A latitude that is read from a part of the text is that of the text. -/
lemma latitude_eq {before found : List Char} (hfound : found.take 7 = "-33.888".toList)
    (h : before ++ found = line "1".toList ++ latitude.text) : found = latitude.text := by
  obtain ⟨rest, rfl⟩ : ∃ rest, found = '-' :: rest := by
    cases found with
    | nil => cases hfound
    | cons c rest =>
        have hc : c = '-' := (List.cons.inj hfound).1
        exact ⟨rest, by rw [hc]⟩
  have hmem : '-' ∈ latitude.text := by
    have hwhole : '-' ∈ line "1".toList ++ latitude.text := by
      rw [← h]
      exact List.mem_append_right _ List.mem_cons_self
    rcases List.mem_append.mp hwhole with hone | htext
    · exact absurd hone (by decide)
    · exact htext
  obtain ⟨body, htext, hbody⟩ := eq_minus_of_mem hmem
  rw [htext] at h ⊢
  have hone : '-' ∉ line "1".toList := by decide
  rw [((List.append_cons_inj_of_notMem hone hbody).mp h.symm).2.2]

/-- A longitude that is read from a part of the text is that of the text. -/
lemma longitude_eq {found after text : List Char} {x : ℕ} (h : found ++ after = line text)
    (hfound : found.take 6 = "151.19".toList) (hint : intOf (slice found 6 8) 10 = .ok x)
    (hx : 10 ≤ x) : text.take 6 = "151.19".toList ∧ slice text 6 8 = slice found 6 8 := by
  have hlength : (slice found 6 8).length ≤ 2 := by
    rw [slice, List.length_take]
    omega
  obtain ⟨htwo, hnewline⟩ := two_digits hint hx hlength
  have height : 8 ≤ found.length := by
    rw [slice, List.length_take, List.length_drop] at htwo
    omega
  -- the eight characters that are read are not at the end of the line
  have hread : found.take 8 = "151.19".toList ++ slice found 6 8 := by
    rw [← hfound, slice, ← List.take_add]
  have hline : found.take 8 = (line text).take 8 := by
    rw [← h, List.take_append_of_le_length height]
  have hlong : 8 ≤ text.length := by
    by_contra hshort
    have hmem : '\n' ∈ (line text).take 8 := by
      rw [List.take_of_length_le (by rw [line, List.length_append, List.length_singleton]; omega), line]
      exact List.mem_append_right _ List.mem_cons_self
    rw [← hline, hread] at hmem
    rcases List.mem_append.mp hmem with hmem | hmem
    · exact absurd hmem (by decide)
    · exact hnewline hmem
  have htext : text.take 8 = found.take 8 := by
    rw [hline, line, List.take_append_of_le_length hlong]
  constructor
  · have hsix := congrArg (List.take 6) htext
    rw [List.take_take, List.take_take] at hsix
    exact hsix.trans hfound
  · have hdrop := congrArg (List.drop 6) htext
    rw [List.drop_take, List.drop_take] at hdrop
    exact hdrop

/-- **A cut wins nothing.**  However the answers are cut, the flag is sent only for a location that the
check accepts as a whole. -/
lemma check_of_awarded {banner flag : List Char} {parts : List (List Char)}
    (hparts : parts.flatten = answers latitude longitude spaces)
    (h : (handle banner flag parts).2 = .awarded) :
    check (location latitude longitude spaces) = true := by
  obtain ⟨option, rest, username, rest', hoption, rfl, husername, hcheck⟩ :=
    (outcome_eq_awarded_iff banner flag parts).mp h
  obtain ⟨b₁, a₁, hfirst⟩ := recvall_eq_some hoption
  obtain ⟨b₂, a₂, hsecond⟩ := recvall_eq_some husername
  obtain ⟨b₃, a₃, hthird⟩ := exists_strip username
  obtain ⟨message, hmessage⟩ : ∃ message, message = strip username := ⟨_, rfl⟩
  rw [← hmessage] at hthird hcheck
  obtain ⟨foundLatitude, foundLongitude, hfound, hlatitude, hlongitude, x, hint, hlow, hhigh⟩ :=
    of_check hcheck
  obtain ⟨before, hbefore⟩ : ∃ before, before = b₁ ++ "1".toList ++ a₁ ++ b₂ ++ b₃ := ⟨_, rfl⟩
  obtain ⟨after, hafter⟩ : ∃ after, after = a₃ ++ a₂ ++ rest'.flatten := ⟨_, rfl⟩
  have hwhole : (before ++ foundLatitude) ++ ',' :: (foundLongitude ++ after) =
      (line "1".toList ++ latitude.text) ++
        ',' :: line (List.replicate spaces ' ' ++ longitude.text) := by
    calc (before ++ foundLatitude) ++ ',' :: (foundLongitude ++ after)
        = before ++ message ++ after := by rw [hfound]; simp
      _ = parts.flatten := by
        rw [hfirst, hsecond, hthird, hbefore, hafter]
        simp
      _ = _ := by rw [hparts, answers, location]; simp [line]
  have hcomma : ',' ∉ line "1".toList ++ latitude.text := by
    have htext := latitude.notMem_text (c := ',') (by decide)
    simp [line, htext]
  have hcomma' : ',' ∉ line (List.replicate spaces ' ' ++ longitude.text) := by
    have htext := longitude.notMem_text (c := ',') (by decide)
    simp [line, htext]
  obtain ⟨hfront, -, hback⟩ := (List.append_cons_inj_of_notMem hcomma hcomma').mp hwhole.symm
  have hlat := latitude_eq hlatitude hfront.symm
  obtain ⟨hlon, hslice⟩ := longitude_eq hback.symm hlongitude hint (by omega)
  rw [check, splitOn_location]
  simp only
  rw [if_pos ⟨hlat ▸ hlatitude, hlon⟩, hslice, hint]
  simp [hlow, hhigh]

lemma isSpace_text {d : Decimal} {c : Char} (hc : c ∈ d.text) : isSpace c = false := by
  have hdigits : ∀ e : Fin 10, isSpace (Nat.digitChar e.val) = false := by decide
  have hall : ∀ ds : List (Fin 10), c ∈ Decimal.digits ds → isSpace c = false := by
    intro ds hmem
    obtain ⟨e, -, rfl⟩ := List.mem_map.mp hmem
    exact hdigits e
  simp only [Decimal.text, Decimal.body, List.mem_append] at hc
  rcases hc with hsign | hwhole | hfraction
  · split_ifs at hsign
    · rw [List.mem_singleton.mp hsign]
      rfl
    · cases hsign
  · exact hall _ hwhole
  · split_ifs at hfraction
    · cases hfraction
    · rcases List.mem_cons.mp hfraction with rfl | hmem
      · rfl
      · exact hall _ hmem

/-- A location that is accepted wins the flag under a cut that delivers it. -/
lemma awarded_of_arrivesWhole (banner flag : List Char) {parts : List (List Char)}
    (hspaces : spaces = 0) (hcheck : check (location latitude longitude spaces) = true)
    (hparts : parts.flatten = line (location latitude longitude spaces))
    (hwhole : ArrivesWhole 2048 parts) :
    (handle banner flag (line "1".toList :: parts)).2 = .awarded := by
  have hclean : ∀ c ∈ location latitude longitude spaces, isSpace c = false := by
    intro c hc
    rw [location, hspaces] at hc
    rcases List.mem_append.mp hc with htext | htext
    · exact isSpace_text htext
    · rcases List.mem_cons.mp htext with rfl | htext
      · rfl
      · exact isSpace_text htext
  have hline : strip (line (location latitude longitude spaces)) =
      location latitude longitude spaces := strip_line hclean
  obtain ⟨rest, hrecv⟩ := (recvall_eq_strip_iff 2048 parts).mpr hwhole
  rw [hparts, hline] at hrecv
  rw [outcome_eq_awarded_iff]
  refine ⟨"1".toList, parts, location latitude longitude spaces, rest, rfl, rfl, hrecv, ?_⟩
  rw [strip_eq hclean]
  exact hcheck

/-- **The award.**  There is a cut of the answers with which a client gets the flag exactly when its
location is the one looked for, and written out. -/
theorem award_iff (banner flag : List Char) (latitude longitude : Decimal) (spaces : ℕ) :
    (∃ parts, IsCut 2048 parts (answers latitude longitude spaces) ∧
      (handle banner flag parts).2 = .awarded) ↔
      InRange latitude longitude ∧ WrittenOut latitude longitude spaces := by
  rw [← check_iff_writtenOut]
  constructor
  · rintro ⟨parts, hcut, hawarded⟩
    exact check_of_awarded hcut.1 hawarded
  · intro hcheck
    have hspaces := ((check_iff latitude longitude spaces).mp hcheck).2.1.1
    -- the option in a part of its own, and the location in parts that arrive whole
    obtain ⟨parts, hcut, hwhole⟩ := exists_isCut (show 1 < 2048 by decide)
      (show isSpace '\n' = true from rfl) (location latitude longitude spaces)
    exact ⟨line "1".toList :: parts, hcut.cons (by decide),
      awarded_of_arrivesWhole banner flag hspaces hcheck hcut.1 hwhole⟩

/-- The reference solver sends a space behind the comma and is refused under every cut. -/
theorem award_iff_solver : ∃ latitude longitude : Decimal,
    location latitude longitude 1 = "-33.888483571971264, 151.19815476465308".toList ∧
      ¬∃ parts, IsCut 2048 parts (answers latitude longitude 1) ∧
        (handle [] [] parts).2 = .awarded := by
  refine ⟨⟨true, [3, 3], [8, 8, 8, 4, 8, 3, 5, 7, 1, 9, 7, 1, 2, 6, 4], by decide⟩,
    ⟨false, [1, 5, 1], [1, 9, 8, 1, 5, 4, 7, 6, 4, 6, 5, 3, 0, 8], by decide⟩, by decide, ?_⟩
  rw [award_iff [] [] _ _ 1]
  rintro ⟨-, hwritten⟩
  exact absurd hwritten.no_space (by decide)

end Cuts

end Whuctf.Lunar
