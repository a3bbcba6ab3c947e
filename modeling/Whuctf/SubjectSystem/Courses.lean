import Mathlib.Data.List.Induction
import Mathlib.Data.List.Nodup
import Whuctf.Library.Numerals

/-!
# The page of the subject system

`app.js` shows the courses that `course.php` returns and keeps a list of selected ones.  The identifiers
of the rows are texts and the handlers of the buttons pass numbers, so a course is looked up by value
and compared by text.  `find` can return `undefined`, on whose fields the later handlers would raise.

The texts of a row go into `innerHTML` as they are.  A name that holds `<button onclick=...>` would put a
button of its own on the page, with any number in it: a click on it would push `undefined`, and the next
`updateSelectedCourses` would raise.  The page is therefore followed for rows without markup, in whose
`innerHTML` the one button is the one that the template writes.

While the responses are tables of such rows and the clicks are on buttons that are shown, nothing raises,
in whatever order responses and clicks come: a course is selected exactly when the last click on one of
its buttons selects it, and it is listed once, with a row that was received (`selected_iff_lastSelects`).
-/

namespace Whuctf.SubjectSystem

open Numerals

/-!
## The program

The handlers of `app.js`, on the lists it keeps and the buttons it shows.  A handler that raises leaves
the page as far as it had come, which is why each returns a page beside its result.
-/

/-- A row, as `fetch_assoc` returns it: the columns are texts, the identifier too. -/
structure Course where
  id : List Char
  name : List Char
  description : List Char
  credits : List Char
  major : List Char
  deriving DecidableEq

inductive JsError
  | typeError
  deriving DecidableEq, Repr

/-- The lists of `app.js`, where `none` is `undefined`, and the courses whose buttons are shown: one
button for each, as the template writes it into the `innerHTML` of a row without markup. -/
structure Page where
  availableCourses : List Course
  selectedCourses : List (Option Course)
  availableButtons : List Course
  selectedButtons : List Course

/-- `courses.some(course => p(course))`: up to the first course with the property, or the first
`undefined`, on whose field it raises. -/
def someCourse (p : Course → Bool) : List (Option Course) → Except JsError Bool
  | [] => .ok false
  | none :: _ => .error .typeError
  | some course :: courses => if p course then .ok true else someCourse p courses

/-- `courses.filter(course => p(course))`, which looks at all courses and raises at one that is
`undefined`. -/
def filterCourses (p : Course → Bool) : List (Option Course) → Except JsError (List (Option Course))
  | [] => .ok []
  | none :: _ => .error .typeError
  | some course :: courses => do
      let rest ← filterCourses p courses
      return if p course then some course :: rest else rest

/-- The loop of `updateSelectedCourses`, with the courses that it gets to show. -/
def renderCourses : List (Option Course) → List Course × Except JsError Unit
  | [] => ([], .ok ())
  | none :: _ => ([], .error .typeError)
  | some course :: courses =>
      let (shown, result) := renderCourses courses
      (course :: shown, result)

/-- The courses that were received are shown, each with its button. -/
def updateAvailableCourses (page : Page) : Page :=
  { page with availableButtons := page.availableCourses }

/-- The selected courses are shown, each with its button, up to one that is `undefined`: reading its
name raises, behind the elements that were appended before. -/
def updateSelectedCourses (page : Page) : Except JsError Unit × Page :=
  let (shown, result) := renderCourses page.selectedCourses
  (result, { page with selectedButtons := shown })

/-- `course.id == courseId`, of a text of digits and a number. -/
def looselyEquals (courseId : ℕ) (course : Course) : Bool := parse 10 course.id = some courseId

def selectCourse (courseId : ℕ) (page : Page) : Except JsError Unit × Page :=
  match someCourse (fun course => course.id = numeral 10 courseId) page.selectedCourses with
  | .error e => (.error e, page)
  -- the alert
  | .ok true => (.ok (), page)
  | .ok false =>
      let selectedCourse := page.availableCourses.find? (looselyEquals courseId)
      updateSelectedCourses
        { page with selectedCourses := page.selectedCourses ++ [selectedCourse] }

def removeSelectedCourse (courseId : ℕ) (page : Page) : Except JsError Unit × Page :=
  match filterCourses (fun course => course.id ≠ numeral 10 courseId) page.selectedCourses with
  | .error e => (.error e, page)
  | .ok selectedCourses => updateSelectedCourses { page with selectedCourses := selectedCourses }

/-- A call of a handler, with the number that it passes. -/
inductive Click (α : Type)
  | select (courseId : α)
  | remove (courseId : α)
  deriving DecidableEq

/-- What can happen on the page: a response arrives, without data when it is no JSON, or a button is
clicked, counted from the top. -/
inductive Event
  | response (data : Option (List Course))
  | availableClick (i : ℕ)
  | selectedClick (i : ℕ)

/-- The number in the text of a button, where the identifier is a decimal literal without leading zeros
that a double represents. -/
def argument (course : Course) : Option ℕ :=
  (parse 10 course.id).filter fun n => numeral 10 n = course.id ∧ n < 2 ^ 53

/-- The call that an event leads to: a click on a button calls the handler with its number, if there is
such a button. -/
def Event.click (page : Page) : Event → Option (Click ℕ)
  | .response _ => none
  | .availableClick i => (page.availableButtons[i]?.bind argument).map .select
  | .selectedClick i => (page.selectedButtons[i]?.bind argument).map .remove

/-- The call of a handler, if there is one; a click on anything else leaves the page as it is. -/
def call (page : Page) : Option (Click ℕ) → Except JsError Unit × Page
  | some (.select courseId) => selectCourse courseId page
  | some (.remove courseId) => removeSelectedCourse courseId page
  | none => (.ok (), page)

def handle (page : Page) : Event → Except JsError Unit × Page
  | .response (some data) => (.ok (), updateAvailableCourses { page with availableCourses := data })
  | event => call page (event.click page)

/-- The page, after it is loaded: no course has been found yet, and none is selected. -/
def Page.loaded : Page := ⟨[], [], [], []⟩

/-- The page after events, whether a handler has raised on the way or not. -/
def run (page : Page) (events : List Event) : Page :=
  events.foldl (fun page event => (handle page event).2) page

/-- The calls in a run, in the order in which they were made. -/
def clicks (page : Page) : List Event → List (Click ℕ)
  | [] => []
  | event :: events => (event.click page).toList ++ clicks (handle page event).2 events

/-! ## Selections

What a sequence of clicks selects, apart from any page.  The order is that of selection, and an element
has been selected last when no click behind that one removes it. -/

section Selection

variable {α : Type}

/-- The last click on a button of `a` selects it. -/
def LastSelects (clicks : List (Click α)) (a : α) : Prop :=
  ∃ before after, clicks = before ++ .select a :: after ∧ .remove a ∉ after

lemma lastSelects_append_singleton {clicks : List (Click α)} {click : Click α} {a : α} :
    LastSelects (clicks ++ [click]) a ↔
      click = .select a ∨ click ≠ .remove a ∧ LastSelects clicks a := by
  constructor
  · rintro ⟨before, after, hclicks, hafter⟩
    rcases List.eq_nil_or_concat after with rfl | ⟨after, last, rfl⟩
    · left
      exact (List.append_inj' hclicks rfl).2 |> List.cons.inj |> And.left
    · right
      have hsplit : clicks ++ [click] = (before ++ .select a :: after) ++ [last] := by
        rw [hclicks, List.concat_eq_append, List.append_assoc, List.cons_append]
      obtain ⟨hfront, hlast⟩ := List.append_inj' hsplit rfl
      obtain rfl : click = last := (List.cons.inj hlast).1
      rw [List.concat_eq_append, List.mem_append, not_or, List.mem_singleton] at hafter
      exact ⟨fun h => hafter.2 h.symm, before, after, hfront, hafter.1⟩
  · rintro (rfl | ⟨hne, before, after, rfl, hafter⟩)
    · exact ⟨clicks, [], rfl, List.not_mem_nil⟩
    · refine ⟨before, after ++ [click], by simp, ?_⟩
      rw [List.mem_append, not_or, List.mem_singleton]
      exact ⟨hafter, fun h => hne h.symm⟩

variable [DecidableEq α]

/-- A selection after a click: the selected one is appended if it is not there, and the removed one
taken out. -/
def choose (chosen : List α) : Click α → List α
  | .select a => if a ∈ chosen then chosen else chosen ++ [a]
  | .remove a => chosen.filter (· ≠ a)

/-- What is selected, in the order of selection. -/
def selection (clicks : List (Click α)) : List α := clicks.foldl choose []

lemma selection_append_singleton (clicks : List (Click α)) (click : Click α) :
    selection (clicks ++ [click]) = choose (selection clicks) click := by
  rw [selection, List.foldl_append]
  rfl

lemma nodup_choose {chosen : List α} (h : chosen.Nodup) (click : Click α) :
    (choose chosen click).Nodup := by
  cases click with
  | remove a => exact h.filter _
  | select a =>
      rw [choose]
      split_ifs with ha
      · exact h
      · exact List.nodup_append.mpr ⟨h, List.nodup_singleton a, by
          intro b hb c hc
          rw [List.mem_singleton.mp hc]
          exact fun hba => ha (hba ▸ hb)⟩

lemma nodup_selection (clicks : List (Click α)) : (selection clicks).Nodup := by
  induction clicks using List.reverseRecOn with
  | nil => exact List.nodup_nil
  | append_singleton clicks click ih =>
      rw [selection_append_singleton]
      exact nodup_choose ih click

/-- What is selected is what was last selected: no later click has removed it. -/
lemma mem_selection_iff {clicks : List (Click α)} {a : α} :
    a ∈ selection clicks ↔ LastSelects clicks a := by
  induction clicks using List.reverseRecOn with
  | nil =>
      refine iff_of_false List.not_mem_nil ?_
      rintro ⟨before, after, h, -⟩
      simp at h
  | append_singleton clicks click ih =>
      rw [selection_append_singleton, lastSelects_append_singleton, ← ih]
      cases click with
      | remove b =>
          rw [choose, List.mem_filter, decide_eq_true_iff]
          constructor
          · rintro ⟨hmem, hne⟩
            exact .inr ⟨fun h => hne (Click.remove.inj h).symm, hmem⟩
          · rintro (h | ⟨hne, hmem⟩)
            · cases h
            · exact ⟨hmem, fun h => hne (h ▸ rfl)⟩
      | select b =>
          rw [choose]
          by_cases hb : b ∈ selection clicks
          · rw [if_pos hb]
            simp only [Click.select.injEq, ne_eq, reduceCtorEq, not_false_eq_true, true_and]
            constructor
            · exact Or.inr
            · rintro (rfl | h)
              · exact hb
              · exact h
          · rw [if_neg hb]
            simp [or_comm, eq_comm]

end Selection

/-! ## Courses on the page

On a page that shows its lists no entry is `undefined`, so the functions on lists are those of lists of
courses.  A course is found by the number in its identifier, since this is how the identifier was
written. -/

section Courses

variable {cs : List Course} {n : ℕ}

/-- The number of a course, which the page puts into the call of its button. -/
def number (course : Course) : ℕ := (parse 10 course.id).getD 0

/-- A row as the table has it: its identifier is the text of an `INT`. -/
def Numbered (course : Course) : Prop := ∃ n < 2 ^ 31, course.id = numeral 10 n

/-- A row without markup: no text that `app.js` puts between the tags of its template opens a tag, so
what is shown of the row is the elements of the template, with its one button. -/
def Course.IsPlain (course : Course) : Prop :=
  ∀ text ∈ [course.name, course.description, course.credits, course.major], '<' ∉ text

instance (course : Course) : Decidable course.IsPlain :=
  inferInstanceAs (Decidable (∀ text ∈ [_, _, _, _], '<' ∉ text))

lemma Numbered.parse_id {course : Course} (h : Numbered course) :
    parse 10 course.id = some (number course) := by
  obtain ⟨n, -, hid⟩ := h
  have hparse : parse 10 course.id = some n := hid ▸ parse_numeral (by decide) (by decide) n
  rw [number, hparse, Option.getD_some]

lemma Numbered.id_eq {course : Course} (h : Numbered course) :
    course.id = numeral 10 (number course) := by
  have hparse := h.parse_id
  obtain ⟨n, -, hid⟩ := h
  rw [hid, parse_numeral (by decide) (by decide) n] at hparse
  rw [hid, Option.some.inj hparse]

/-- A course is compared with a number by its text. -/
lemma Numbered.id_eq_iff {course : Course} (h : Numbered course) :
    course.id = numeral 10 n ↔ number course = n := by
  rw [h.id_eq]
  exact (numeral_injective (by decide) (by decide)).eq_iff

lemma Numbered.argument_eq {course : Course} (h : Numbered course) :
    argument course = some (number course) := by
  have hlt : number course < 2 ^ 53 := by
    obtain ⟨n, hn, hid⟩ := id h
    have hnumber := h.id_eq_iff.mp hid
    omega
  rw [argument, h.parse_id, Option.filter_some, if_pos]
  exact decide_eq_true ⟨h.id_eq.symm, hlt⟩

lemma someCourse_map (p : Course → Bool) (cs : List Course) :
    someCourse p (cs.map some) = .ok (cs.any p) := by
  induction cs with
  | nil => rfl
  | cons c cs ih =>
      rw [List.map_cons, someCourse, List.any_cons, ih]
      cases p c <;> rfl

lemma filterCourses_map (p : Course → Bool) (cs : List Course) :
    filterCourses p (cs.map some) = .ok ((cs.filter p).map some) := by
  induction cs with
  | nil => rfl
  | cons c cs ih =>
      rw [List.map_cons, filterCourses, ih, List.filter_cons]
      cases p c <;> rfl

lemma renderCourses_map (cs : List Course) : renderCourses (cs.map some) = (cs, .ok ()) := by
  induction cs with
  | nil => rfl
  | cons c cs ih => rw [List.map_cons, renderCourses, ih]

lemma updateSelectedCourses_map {page : Page} (h : page.selectedCourses = cs.map some) :
    updateSelectedCourses page = (.ok (), { page with selectedButtons := cs }) := by
  rw [updateSelectedCourses, h, renderCourses_map]

end Courses

/-! ## Runs

The invariant ties the page to the calls so far.  It is kept by each kind of event: a response replaces
the available courses, and a click changes the selection as it says. -/

/-- The rows of a table whose texts have no markup. -/
def IsTable (data : List Course) : Prop := ∀ course ∈ data, Numbered course ∧ course.IsPlain

/-- A response had the row, one that could be read as data. -/
def Received (events : List Event) (course : Course) : Prop :=
  ∃ data, Event.response (some data) ∈ events ∧ course ∈ data

/-- After events with these clicks the page shows its lists, which hold rows that were received, and has
selected what the clicks select. -/
structure Consistent (events : List Event) (clicks : List (Click ℕ)) (page : Page) : Prop where
  available : page.availableButtons = page.availableCourses
  selected : page.selectedCourses = page.selectedButtons.map some
  numbers : page.selectedButtons.map number = selection clicks
  availableRows : ∀ course ∈ page.availableButtons, Numbered course ∧ Received events course
  selectedRows : ∀ course ∈ page.selectedButtons, Numbered course ∧ Received events course

lemma loaded_consistent : Consistent [] [] Page.loaded := ⟨rfl, rfl, rfl, nofun, nofun⟩

section Step

variable {events : List Event} {before : List (Click ℕ)} {page : Page}

/-- A page stays consistent with more events. -/
lemma Consistent.more (h : Consistent events before page) (event : Event) :
    Consistent (events ++ [event]) before page := by
  have hmore : ∀ {course : Course}, Received events course → Received (events ++ [event]) course := by
    rintro course ⟨data, hdata, hcourse⟩
    exact ⟨data, List.mem_append_left _ hdata, hcourse⟩
  exact { h with
    availableRows := fun c hc => (h.availableRows c hc).imp_right hmore
    selectedRows := fun c hc => (h.selectedRows c hc).imp_right hmore }

/-- A click on an available course selects it, unless it is selected already, and leaves the page
consistent. -/
lemma selectCourse_consistent (h : Consistent events before page) {course : Course}
    (hcourse : course ∈ page.availableButtons) :
    (selectCourse (number course) page).1 = .ok () ∧
      Consistent events (before ++ [.select (number course)])
        (selectCourse (number course) page).2 := by
  have hany : page.selectedButtons.any (fun c => c.id = numeral 10 (number course)) = true ↔
      number course ∈ selection before := by
    rw [← h.numbers, List.any_eq_true, List.mem_map]
    refine exists_congr fun c => and_congr_right fun hc => ?_
    rw [decide_eq_true_iff]
    exact (h.selectedRows c hc).1.id_eq_iff
  have hsome := someCourse_map (fun c => c.id = numeral 10 (number course)) page.selectedButtons
  rw [← h.selected] at hsome
  rw [selectCourse, hsome]
  by_cases hmem : number course ∈ selection before
  · rw [hany.mpr hmem]
    refine ⟨rfl, { h with numbers := ?_ }⟩
    rw [h.numbers, selection_append_singleton, choose, if_pos hmem]
  · rw [Bool.eq_false_iff.mpr fun htrue => hmem (hany.mp htrue)]
    -- the button is that of a row, so `find` finds one
    have hfind : ∃ found ∈ page.availableButtons, number found = number course ∧
        page.availableCourses.find? (looselyEquals (number course)) = some found := by
      cases hfound : page.availableCourses.find? (looselyEquals (number course)) with
      | none =>
          rw [← h.available, List.find?_eq_none] at hfound
          refine absurd ?_ (hfound course hcourse)
          exact decide_eq_true (h.availableRows course hcourse).1.parse_id
      | some found =>
          have hmemfound : found ∈ page.availableButtons := h.available ▸ List.mem_of_find?_eq_some hfound
          have hequals : looselyEquals (number course) found = true := List.find?_some hfound
          rw [looselyEquals, decide_eq_true_iff, (h.availableRows found hmemfound).1.parse_id] at hequals
          exact ⟨found, hmemfound, Option.some.inj hequals, rfl⟩
    obtain ⟨found, hmemfound, hnumber, hfound⟩ := hfind
    have hpush : page.selectedCourses ++ [some found] = (page.selectedButtons ++ [found]).map some := by
      rw [h.selected, List.map_append]
      rfl
    simp only [hfound]
    rw [updateSelectedCourses_map hpush]
    refine ⟨rfl, ?_⟩
    exact {
      available := h.available
      selected := hpush
      numbers := by
        rw [selection_append_singleton, choose, if_neg hmem, ← h.numbers, List.map_append,
          List.map_singleton, hnumber]
      availableRows := h.availableRows
      selectedRows := by
        intro c hc
        rcases List.mem_append.mp hc with hold | hnew
        · exact h.selectedRows c hold
        · rw [List.mem_singleton.mp hnew]
          exact h.availableRows found hmemfound }

/-- A click on a selected course removes it, in every place where it is listed, and leaves the page
consistent. -/
lemma removeSelectedCourse_consistent (h : Consistent events before page) (n : ℕ) :
    (removeSelectedCourse n page).1 = .ok () ∧
      Consistent events (before ++ [.remove n]) (removeSelectedCourse n page).2 := by
  have hfilter := filterCourses_map (fun c => c.id ≠ numeral 10 n) page.selectedButtons
  rw [← h.selected] at hfilter
  rw [removeSelectedCourse, hfilter]
  simp only
  rw [updateSelectedCourses_map rfl]
  refine ⟨rfl, { h with selected := rfl, numbers := ?_, selectedRows := ?_ }⟩
  · have hcongr : page.selectedButtons.filter (fun c => c.id ≠ numeral 10 n) =
        page.selectedButtons.filter ((fun m => decide (m ≠ n)) ∘ number) := by
      apply List.filter_congr
      intro c hc
      exact decide_eq_decide.mpr (not_congr (h.selectedRows c hc).1.id_eq_iff)
    rw [selection_append_singleton, choose, ← h.numbers, List.filter_map, hcongr]
  · intro c hc
    exact h.selectedRows c (List.mem_filter.mp hc).1

/-- A click is on the button of a row. -/
lemma Consistent.click_cases (h : Consistent events before page) (event : Event) :
    event.click page = none ∨
      (∃ course ∈ page.availableButtons, event.click page = some (.select (number course))) ∨
        ∃ n, event.click page = some (.remove n) := by
  cases event with
  | response data => exact .inl rfl
  | availableClick i =>
      rw [Event.click]
      cases hbutton : page.availableButtons[i]? with
      | none => exact .inl rfl
      | some course =>
          have hcourse := List.mem_of_getElem? hbutton
          rw [Option.bind_some, (h.availableRows course hcourse).1.argument_eq]
          exact .inr (.inl ⟨course, hcourse, rfl⟩)
  | selectedClick i =>
      rw [Event.click]
      cases hbutton : page.selectedButtons[i]? with
      | none => exact .inl rfl
      | some course =>
          have hcourse := List.mem_of_getElem? hbutton
          rw [Option.bind_some, (h.selectedRows course hcourse).1.argument_eq]
          exact .inr (.inr ⟨number course, rfl⟩)

lemma call_consistent (h : Consistent events before page) (event : Event) :
    (call page (event.click page)).1 = .ok () ∧
      Consistent (events ++ [event]) (before ++ (event.click page).toList)
        (call page (event.click page)).2 := by
  have hcalls : (call page (event.click page)).1 = .ok () ∧
      Consistent events (before ++ (event.click page).toList) (call page (event.click page)).2 := by
    rcases h.click_cases event with hclick | ⟨course, hcourse, hclick⟩ | ⟨n, hclick⟩
    · rw [hclick]
      exact ⟨rfl, (List.append_nil before).symm ▸ h⟩
    · rw [hclick]
      exact selectCourse_consistent h hcourse
    · rw [hclick]
      exact removeSelectedCourse_consistent h n
  exact ⟨hcalls.1, hcalls.2.more event⟩

/-- An event on a consistent page raises nothing and leaves it consistent. -/
lemma handle_consistent (h : Consistent events before page) {event : Event}
    (hdata : ∀ data, event = .response (some data) → IsTable data) :
    (handle page event).1 = .ok () ∧
      Consistent (events ++ [event]) (before ++ (event.click page).toList)
        (handle page event).2 := by
  cases event with
  | availableClick i => exact call_consistent h _
  | selectedClick i => exact call_consistent h _
  | response data =>
      cases data with
      | none => exact call_consistent h _
      | some data =>
          have hmore := h.more (.response (some data))
          rw [Event.click, Option.toList_none, List.append_nil]
          refine ⟨rfl, { hmore with available := rfl, availableRows := fun c hc => ?_ }⟩
          exact ⟨(hdata data rfl c hc).1, data, List.mem_append_right _ List.mem_cons_self, hc⟩

end Step

lemma run_append_singleton (page : Page) (events : List Event) (event : Event) :
    run page (events ++ [event]) = (handle (run page events) event).2 := by
  rw [run, List.foldl_append]
  rfl

lemma clicks_append_singleton (page : Page) (events : List Event) (event : Event) :
    clicks page (events ++ [event]) = clicks page events ++ (event.click (run page events)).toList := by
  induction events generalizing page with
  | nil => rw [List.nil_append, clicks, clicks, clicks, List.append_nil]; rfl
  | cons first events ih =>
      rw [List.cons_append, clicks, ih, clicks, List.append_assoc]
      rfl

/-- A page that was loaded is consistent after all events. -/
lemma run_consistent {events : List Event}
    (hdata : ∀ data, .response (some data) ∈ events → IsTable data) :
    Consistent events (clicks .loaded events) (run .loaded events) := by
  induction events using List.reverseRecOn with
  | nil => exact loaded_consistent
  | append_singleton events event ih =>
      have hbefore := ih fun data hmem => hdata data (List.mem_append_left _ hmem)
      rw [run_append_singleton, clicks_append_singleton]
      refine (handle_consistent hbefore ?_).2
      rintro data rfl
      exact hdata data (List.mem_append_right _ List.mem_cons_self)

/-- **The page.**  Whatever the order of clicks and of responses with tables of rows without markup, no
handler raises, a course is selected exactly when the last click on one of its buttons selects it, and it
is listed once, as a response had it. -/
theorem selected_iff_lastSelects {events : List Event}
    (hdata : ∀ data, .response (some data) ∈ events → IsTable data) :
    (∀ before event after, events = before ++ event :: after →
      (handle (run .loaded before) event).1 = .ok ()) ∧
    (run .loaded events).selectedCourses = (run .loaded events).selectedButtons.map some ∧
    ((run .loaded events).selectedButtons.map number).Nodup ∧
    (∀ n, n ∈ (run .loaded events).selectedButtons.map number ↔
      LastSelects (clicks .loaded events) n) ∧
    ∀ course ∈ (run .loaded events).selectedButtons, Received events course := by
  have hpage := run_consistent hdata
  refine ⟨?_, hpage.selected, ?_, ?_, fun course hcourse => (hpage.selectedRows course hcourse).2⟩
  · rintro before event after rfl
    have hbefore : Consistent before _ _ := run_consistent fun data hmem =>
      hdata data (List.mem_append_left _ hmem)
    refine (handle_consistent hbefore ?_).1
    rintro data rfl
    exact hdata data (List.mem_append_right _ List.mem_cons_self)
  · rw [hpage.numbers]
    exact nodup_selection _
  · intro n
    rw [hpage.numbers]
    exact mem_selection_iff

theorem selected_iff_lastSelects_row :
    let data : List Course := [⟨"1".toList, "a & b".toList, "".toList, "3".toList, "c".toList⟩]
    let events : List Event := [.response (some data), .availableClick 0, .response none]
    (∀ before event after, events = before ++ event :: after →
      (handle (run .loaded before) event).1 = .ok ()) ∧
    (run .loaded events).selectedCourses = (run .loaded events).selectedButtons.map some ∧
    ((run .loaded events).selectedButtons.map number).Nodup ∧
    (∀ n, n ∈ (run .loaded events).selectedButtons.map number ↔
      LastSelects (clicks .loaded events) n) ∧
    ∀ course ∈ (run .loaded events).selectedButtons, Received events course := by
  intro data events
  apply selected_iff_lastSelects
  intro data' hdata'
  obtain rfl : data' = data := by simpa [events] using hdata'
  intro course hcourse
  rw [List.mem_singleton.mp hcourse]
  exact ⟨⟨1, by decide, rfl⟩, by decide⟩

end Whuctf.SubjectSystem
