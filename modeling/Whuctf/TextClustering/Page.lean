import Mathlib.Data.List.GetD
import Whuctf.Library.Query
import Whuctf.TextClustering.App

/-!
# The training page of text-clustering

The page of `script.js` has a text input for the name of the model and a row for each sample, with a
text input for the type and a file input.  Clicks add a row or clear them all.  The train button pairs
the file inputs of the page with its text inputs by position, and sends a running count of the rows.

The name of the model is the first text input, so the file of a row is sent with the type of the row
before it (`lookup_form`).  The running count starts at one and is reset to zero, so it exceeds the
number of rows until the rows are cleared for the first time (`sampleCount_after`).  What the handler
of `/train` needs is sent exactly where neither matters (`request_agrees_iff`).
-/

namespace Whuctf.TextClustering

open Numerals

/-! ## The program -/

/-- A row of the sample list: what is typed as its type, and the file that is chosen, if one is. -/
structure Row where
  typeName : List Char
  file : Option File

/-- The state of the page: the name of the model, the rows, and the running count. -/
structure Page where
  modelName : List Char
  rows : List Row
  sampleCount : ℕ

/-- The page when it is loaded: no rows, and a count of one. -/
def Page.load : Page where
  modelName := []
  rows := []
  sampleCount := 1

/-- What a user does before training: inputs are changed, rows added, and all of them cleared. -/
inductive Event
  | addSample
  | clearSamples
  | enterModelName (text : List Char)
  | enterTypeName (row : ℕ) (text : List Char)
  | chooseFile (row : ℕ) (file : Option File)
  deriving DecidableEq

def Page.handle (page : Page) : Event → Page
  | .addSample =>
      { page with
        rows := page.rows ++ [{ typeName := [], file := none }]
        sampleCount := page.sampleCount + 1 }
  | .clearSamples => { page with rows := [], sampleCount := 0 }
  | .enterModelName text => { page with modelName := text }
  | .enterTypeName row text =>
      { page with rows := page.rows.modify row fun r => { r with typeName := text } }
  | .chooseFile row file =>
      { page with rows := page.rows.modify row fun r => { r with file := file } }

/-- The page after a sequence of events, from its loading on. -/
def Page.after (events : List Event) : Page := events.foldl Page.handle Page.load

/-- `document.querySelectorAll('[type="file"]')`: the file inputs of the page, one for each row. -/
def Page.fileInputs (page : Page) : List (Option File) := page.rows.map Row.file

/-- The values of `document.querySelectorAll('[type="text"]')`: the input `modelName` comes first. -/
def Page.textInputs (page : Page) : List (List Char) := page.modelName :: page.rows.map Row.typeName

/-- A part of the form data: a file under its key, or a text under its key. -/
inductive Part
  | file (key : List Char) (content : File)
  | text (key value : List Char)

def Part.file? : Part → Option (List Char × File)
  | .file key content => some (key, content)
  | .text _ _ => none

def Part.text? : Part → Option (List Char × List Char)
  | .file _ _ => none
  | .text key value => some (key, value)

/-- One pass of the loop over the file inputs: an input without a file is passed over, and its type
with it. -/
def Page.sampleParts (page : Page) (i : ℕ) : List Part :=
  match page.fileInputs.getD i none with
  | some file => [.file (sampleKey i) file, .text (typeKey i) (page.textInputs.getD i [])]
  | none => []

def Page.formData (page : Page) : List Part :=
  (List.range page.fileInputs.length).flatMap page.sampleParts

/-- The query in the address that the button fetches, with the name of the model as it was typed. -/
def Page.trainQuery (page : Page) : List Char :=
  "model".toList ++ '=' :: (page.modelName ++ '&' ::
    ("sampleCount".toList ++ '=' :: numeral 10 page.sampleCount))

/-- The request of the train button, as the handler reads it. -/
def Page.request (platform : Platform) (page : Page) : Request where
  args := Query.args platform.unquote (Query.sent page.trainQuery)
  files := page.formData.filterMap Part.file?
  form := page.formData.filterMap Part.text?

/-! ## The numbering of the samples -/

/-- The page and the handler agree on the samples: the file of every row arrives with its type, the
handler finds a type for every sample that it counts, and so it never operates on a missing field. -/
structure Agrees (platform : Platform) (page : Page) : Prop where
  files : ∀ (i : ℕ) (row : Row), page.rows[i]? = some row →
    (page.request platform).files.lookup (sampleKey i) = row.file
  types : ∀ (i : ℕ) (row : Row), page.rows[i]? = some row →
    (page.request platform).form.lookup (typeKey i) = some row.typeName
  count : ∃ n : ℤ, readSampleCount platform (page.request platform) = .ok n ∧
    ∀ i : ℕ, i < n → (page.request platform).form.lookup (typeKey i) ≠ none
  runs : ∀ (σ ε Info : Type) (fs : FileSystem σ ε Info),
    NoTypeError (train fs platform (page.request platform))

/-- The documented behaviour of the surroundings: letters are decoded to themselves, and decimal
numerals are read. -/
structure Platform.Documented (platform : Platform) : Prop where
  unquote_letters : ∀ text : List Char, (∀ c ∈ text, c.isAlphanum = true) →
    platform.unquote text = text
  int_numeral : ∀ n : ℕ, platform.int (numeral 10 n) = some (n : ℤ)

/-- What a text for the model brings with it as `sampleCount`. -/
def ownSampleCount (platform : Platform) (modelName : List Char) : Option (List Char) :=
  (Query.own platform.unquote modelName).lookup "sampleCount".toList

/-- The count that the handler reads is at most the number of rows.  A model name with a parameter
`sampleCount` of its own is counted by that; otherwise the rows must have been cleared once, and the
model name must let the count of the page through. -/
def CountFits (platform : Platform) (events : List Event) : Prop :=
  match ownSampleCount platform (Page.after events).modelName with
  | some text => ∃ n : ℤ, platform.int text = some n ∧ n ≤ (Page.after events).rows.length
  | none => '#' ∉ (Page.after events).modelName ∧ .clearSamples ∈ events

/-! ## The running count -/

/-- Until the rows are cleared for the first time, the count is one too high. -/
def Page.Counts (cleared : Bool) (page : Page) : Prop :=
  page.sampleCount = page.rows.length + if cleared then 0 else 1

lemma Page.Counts.handle {cleared : Bool} {page : Page} (h : page.Counts cleared) (event : Event) :
    (page.handle event).Counts (cleared || event = .clearSamples) := by
  unfold Page.Counts at h
  cases event with
  | addSample =>
    simp only [Counts, Page.handle, h, List.length_append, List.length_singleton, reduceCtorEq,
      decide_false, Bool.or_false]
    omega
  | clearSamples => simp [Counts, Page.handle]
  | enterModelName text => simpa [Counts, Page.handle] using h
  | enterTypeName row text => simpa [Counts, Page.handle] using h
  | chooseFile row file => simpa [Counts, Page.handle] using h

lemma Page.Counts.foldl {cleared : Bool} {page : Page} (h : page.Counts cleared)
    (events : List Event) :
    (events.foldl Page.handle page).Counts (cleared || .clearSamples ∈ events) := by
  induction events generalizing cleared page with
  | nil => simpa using h
  | cons event rest ih =>
    have hrest := ih (h.handle event)
    rw [Bool.or_assoc] at hrest
    simpa [List.mem_cons, eq_comm] using hrest

lemma sampleCount_after (events : List Event) :
    (Page.after events).sampleCount =
      (Page.after events).rows.length + if .clearSamples ∈ events then 0 else 1 := by
  have hload : Page.load.Counts false := rfl
  simpa [Page.Counts, Page.after] using hload.foldl events

/-! ## The request -/

lemma sampleKey_injective : Function.Injective sampleKey := fun _ _ h =>
  numeral_injective (by decide) (by decide) (List.append_cancel_left h)

lemma typeKey_injective : Function.Injective typeKey := fun _ _ h =>
  sampleKey_injective (List.append_cancel_right h)

lemma lookup_optional {β : Type} (k k' : List Char) (b : Option β) :
    ((b.map fun b => (k, b)).toList).lookup k' = if k' = k then b else none := by
  cases b with
  | none => simp
  | some b =>
    by_cases h : k' = k
    · simp [h]
    · rw [if_neg h, Option.map_some, Option.toList_some, List.lookup_cons, beq_false_of_ne h]
      rfl

/-- Entries listed by number, some of them missing: under a number one finds its entry, if it is below
the bound and not missing. -/
lemma lookup_numbered {β : Type} {key : ℕ → List Char} (hkey : Function.Injective key)
    (value : ℕ → Option β) (n i : ℕ) :
    ((List.range n).flatMap fun j => ((value j).map fun b => (key j, b)).toList).lookup (key i) =
      if i < n then value i else none := by
  induction n with
  | zero => rfl
  | succ n ih =>
    rw [List.range_succ, List.flatMap_append, List.lookup_append, ih, List.flatMap_singleton,
      lookup_optional]
    simp only [hkey.eq_iff]
    rcases lt_trichotomy i n with hlt | rfl | hgt
    · simp [hlt, hlt.ne, Nat.lt_succ_of_lt hlt]
    · simp
    · simp [hgt.ne', Nat.not_lt_of_gt hgt, Nat.not_lt_of_ge hgt]

/-- A property of the ten digits holds in a numeral. -/
lemma of_mem_numeral {P : Char → Prop} (h : ∀ d < 10, P (Nat.digitChar d)) {n : ℕ} {c : Char}
    (hc : c ∈ numeral 10 n) : P c := by
  obtain ⟨d, hd, rfl⟩ := List.mem_map.mp hc
  exact h d (lt_of_mem_digitsOf (by decide) hd)

section Request

variable (platform : Platform) (page : Page)

lemma fileInputs_getD_of_le {i : ℕ} (h : page.fileInputs.length ≤ i) :
    page.fileInputs.getD i none = none :=
  List.getD_eq_default _ _ h

/-- What the server finds under a numbered key, when a pass of the loop appends it with the file. -/
lemma lookup_formData {β : Type} {key : ℕ → List Char} (hkey : Function.Injective key)
    {part? : Part → Option (List Char × β)} {value : ℕ → Option β}
    (hparts : ∀ j, (page.sampleParts j).filterMap part? =
      ((value j).map fun b => (key j, b)).toList)
    (hvalue : ∀ j, page.fileInputs.getD j none = none → value j = none) (i : ℕ) :
    (page.formData.filterMap part?).lookup (key i) = value i := by
  have hpasses : page.formData.filterMap part? =
      (List.range page.fileInputs.length).flatMap fun j =>
        ((value j).map fun b => (key j, b)).toList := by
    rw [Page.formData, List.filterMap_flatMap, funext hparts]
  rw [hpasses, lookup_numbered hkey]
  split_ifs with h
  · rfl
  · exact (hvalue i (fileInputs_getD_of_le page (Nat.le_of_not_lt h))).symm

/-- The file of row `i` is sent as that of sample `i`. -/
lemma lookup_files (i : ℕ) :
    (page.request platform).files.lookup (sampleKey i) = page.fileInputs.getD i none := by
  have hparts : ∀ j, (page.sampleParts j).filterMap Part.file? =
      ((page.fileInputs.getD j none).map fun f => (sampleKey j, f)).toList := by
    intro j
    cases h : page.fileInputs.getD j none <;> simp only [Page.sampleParts, h] <;> rfl
  exact lookup_formData page sampleKey_injective hparts (fun _ h => h) i

/-- The type of sample `i` is text input `i` of the page, which is that of row `i - 1`. -/
lemma lookup_form (i : ℕ) :
    (page.request platform).form.lookup (typeKey i) =
      (page.fileInputs.getD i none).map fun _ => page.textInputs.getD i [] := by
  have hparts : ∀ j, (page.sampleParts j).filterMap Part.text? =
      (((page.fileInputs.getD j none).map fun _ => page.textInputs.getD j []).map
        fun text => (typeKey j, text)).toList := by
    intro j
    cases h : page.fileInputs.getD j none <;> simp only [Page.sampleParts, h] <;> rfl
  have hmissing : ∀ j, page.fileInputs.getD j none = none →
      (page.fileInputs.getD j none).map (fun _ => page.textInputs.getD j []) = none := by
    intro j h
    rw [h, Option.map_none]
  exact lookup_formData page typeKey_injective hparts hmissing i

/-- The count that the handler looks up: one that the name of the model brings along, or else that of
the page, unless the name ends the query. -/
lemma lookup_sampleCount (hplatform : platform.Documented) :
    (page.request platform).args.lookup "sampleCount".toList =
      (ownSampleCount platform page.modelName).or
        (if '#' ∈ page.modelName then none else some (numeral 10 page.sampleCount)) := by
  have hdigits : Query.Clean (numeral 10 page.sampleCount) := fun _ =>
    of_mem_numeral (P := (· ∉ Query.special)) (by decide)
  have hmodel : platform.unquote "model".toList = "model".toList :=
    hplatform.unquote_letters _ (List.all_eq_true.mp (by decide))
  have hkey : platform.unquote "sampleCount".toList = "sampleCount".toList :=
    hplatform.unquote_letters _ (List.all_eq_true.mp (by decide))
  have hcount : platform.unquote (numeral 10 page.sampleCount) = numeral 10 page.sampleCount :=
    hplatform.unquote_letters _ fun _ => of_mem_numeral (P := (·.isAlphanum = true)) (by decide)
  have hmodelClean : Query.Clean "model".toList := Query.clean_of_all (by decide)
  have hkeyClean : Query.Clean "sampleCount".toList := Query.clean_of_all (by decide)
  obtain ⟨first, hargs⟩ :=
    Query.args_embedded platform.unquote hmodelClean hkeyClean hdigits page.modelName
  have hne : ("sampleCount".toList == "model".toList) = false := by decide
  show (Query.args platform.unquote (Query.sent page.trainQuery)).lookup "sampleCount".toList = _
  rw [Page.trainQuery, hargs, hmodel, hkey, hcount, List.lookup_cons, hne, List.lookup_append,
    ownSampleCount]
  split_ifs <;> simp

end Request

/-! ## Where the page and the handler agree -/

section Agreement

variable {platform : Platform} {page : Page}

/-- Every row has a file. -/
def Page.Filled (page : Page) : Prop := ∀ row ∈ page.rows, row.file.isSome = true

lemma fileInputs_getD {i : ℕ} {row : Row} (h : page.rows[i]? = some row) :
    page.fileInputs.getD i none = row.file := by
  rw [List.getD_eq_getElem?_getD, Page.fileInputs, List.getElem?_map, h]
  rfl

lemma textInputs_getD_succ {i : ℕ} {row : Row} (h : page.rows[i]? = some row) :
    page.textInputs.getD (i + 1) [] = row.typeName := by
  rw [List.getD_eq_getElem?_getD, Page.textInputs, List.getElem?_cons_succ, List.getElem?_map, h]
  rfl

lemma exists_previous {i : ℕ} {row : Row} (h : page.rows[i + 1]? = some row) :
    ∃ previous, page.rows[i]? = some previous := by
  have hlt := (List.getElem?_eq_some_iff.mp h).1
  exact ⟨_, List.getElem?_eq_getElem (Nat.lt_of_succ_lt hlt)⟩

/-- The type that is sent for a row with a file. -/
lemma lookup_form_row (hfiles : page.Filled) {i : ℕ} {row : Row} (h : page.rows[i]? = some row) :
    (page.request platform).form.lookup (typeKey i) = some (page.textInputs.getD i []) := by
  obtain ⟨f, hf⟩ := Option.isSome_iff_exists.mp (hfiles row (List.mem_of_getElem? h))
  rw [lookup_form, fileInputs_getD h, hf, Option.map_some]

/-- The types arrive with their rows only if they are all the name of the model: each is taken for
that of the next row, and the name of the model for the first. -/
lemma types_iff (hfiles : page.Filled) :
    (∀ (i : ℕ) (row : Row), page.rows[i]? = some row →
      (page.request platform).form.lookup (typeKey i) = some row.typeName) ↔
    ∀ row ∈ page.rows, row.typeName = page.modelName := by
  constructor
  · intro htypes
    have hall : ∀ (i : ℕ) (row : Row), page.rows[i]? = some row → row.typeName = page.modelName := by
      intro i
      induction i with
      | zero =>
        intro row hrow
        have hsent := htypes 0 row hrow
        rw [lookup_form_row hfiles hrow] at hsent
        exact (Option.some.inj hsent).symm
      | succ i ih =>
        intro row hrow
        obtain ⟨previous, hprevious⟩ := exists_previous hrow
        have hsent := htypes (i + 1) row hrow
        rw [lookup_form_row hfiles hrow, textInputs_getD_succ hprevious] at hsent
        exact (Option.some.inj hsent).symm.trans (ih previous hprevious)
    intro row hrow
    obtain ⟨i, hi⟩ := List.mem_iff_getElem?.mp hrow
    exact hall i row hi
  · intro hmodel i row hrow
    have hinput : page.textInputs.getD i [] = page.modelName := by
      cases i with
      | zero => rfl
      | succ i =>
        obtain ⟨previous, hprevious⟩ := exists_previous hrow
        rw [textInputs_getD_succ hprevious]
        exact hmodel previous (List.mem_of_getElem? hprevious)
    rw [lookup_form_row hfiles hrow, hinput, hmodel row (List.mem_of_getElem? hrow)]

/-- With a file in every row, the types that arrive are numbered up to the number of rows. -/
lemma lookup_form_ne_none_iff (hfiles : page.Filled) (i : ℕ) :
    (page.request platform).form.lookup (typeKey i) ≠ none ↔ i < page.rows.length := by
  constructor
  · intro hfound
    by_contra hi
    rw [lookup_form, fileInputs_getD_of_le page (by simpa [Page.fileInputs] using hi)] at hfound
    exact hfound rfl
  · intro hi
    rw [lookup_form_row hfiles (List.getElem?_eq_getElem hi)]
    exact Option.some_ne_none _

/-- The handler finds a type for every sample exactly if it counts no more than the rows. -/
lemma found_iff (hfiles : page.Filled) (n : ℤ) :
    (∀ i : ℕ, i < n → (page.request platform).form.lookup (typeKey i) ≠ none) ↔
      n ≤ page.rows.length := by
  simp only [lookup_form_ne_none_iff hfiles]
  constructor
  · intro hall
    by_contra hn
    exact absurd (hall page.rows.length (by omega)) (lt_irrefl _)
  · intro hn i hi
    omega

lemma count_iff (hplatform : platform.Documented) {events : List Event}
    (hfiles : (Page.after events).Filled) :
    (∃ n : ℤ, readSampleCount platform ((Page.after events).request platform) = .ok n ∧
      ∀ i : ℕ, i < n → ((Page.after events).request platform).form.lookup (typeKey i) ≠ none) ↔
    CountFits platform events := by
  simp only [found_iff hfiles, readSampleCount, lookup_sampleCount _ _ hplatform, CountFits]
  cases ownSampleCount platform (Page.after events).modelName with
  | some text =>
    cases htext : platform.int text with
    | none => simp [htext]
    | some n => simp [htext]
  | none =>
    by_cases hhash : '#' ∈ (Page.after events).modelName
    · simp [hhash]
    · simp only [Option.none_or, if_neg hhash, hplatform.int_numeral, sampleCount_after]
      by_cases hcleared : Event.clearSamples ∈ events
      · simp [hhash, hcleared]
      · simp [hhash, hcleared]

/-- **Numbering of the samples.**  After any events, with a file in every row, the page and the handler
agree exactly if every type is the name of the model and the handler counts no more samples than there
are rows. -/
theorem request_agrees_iff (platform : Platform) (hplatform : platform.Documented)
    (events : List Event) (hfiles : (Page.after events).Filled) :
    Agrees platform (Page.after events) ↔
      (∀ row ∈ (Page.after events).rows, row.typeName = (Page.after events).modelName) ∧
        CountFits platform events := by
  constructor
  · intro h
    exact ⟨(types_iff hfiles).mp h.types, (count_iff hplatform hfiles).mp h.count⟩
  · rintro ⟨htypes, hcount⟩
    obtain ⟨n, hread, hfound⟩ := (count_iff hplatform hfiles).mpr hcount
    refine ⟨?_, (types_iff hfiles).mpr htypes, ⟨n, hread, hfound⟩, ?_⟩
    · intro i row hrow
      rw [lookup_files, fileInputs_getD hrow]
    · intro σ ε Info fs
      exact train_noTypeError fs _ hread hfound

end Agreement

/-- The surroundings for texts without percent and plus signs, and for numerals without a sign. -/
def plainPlatform : Platform where
  unquote := id
  int text := (parse 10 text).map Nat.cast

lemma plainPlatform_documented : plainPlatform.Documented where
  unquote_letters _ _ := rfl
  int_numeral n := by
    show (parse 10 (numeral 10 n)).map Nat.cast = _
    rw [parse_numeral (by decide) (by decide), Option.map_some]

/-- A file, whatever is in it, as a row of the examples has it. -/
def sampleFile : File where
  filename := "sample.zip".toList
  content := []

/-- One row with a file and a type, for a model. -/
def oneSample (modelName typeName : List Char) : List Event :=
  [.addSample, .enterTypeName 0 typeName, .chooseFile 0 (some sampleFile), .enterModelName modelName]

/-- After a click on clear, a type with the name of the model. -/
theorem request_agrees_iff_cleared :
    Agrees plainPlatform (Page.after (.clearSamples :: oneSample ['m'] ['m'])) := by
  have hfiles : (Page.after (.clearSamples :: oneSample ['m'] ['m'])).Filled := by
    unfold Page.Filled
    decide
  have hcount : CountFits plainPlatform (.clearSamples :: oneSample ['m'] ['m']) := by
    have hown : ownSampleCount plainPlatform
        (Page.after (.clearSamples :: oneSample ['m'] ['m'])).modelName = none := by decide
    rw [CountFits, hown]
    exact ⟨by decide, by decide⟩
  exact (request_agrees_iff plainPlatform plainPlatform_documented _ hfiles).mpr
    ⟨by decide, hcount⟩

/-- The type of the first row does not arrive: the name of the model does in its place. -/
theorem first_type_not_sent :
    ¬∀ platform : Platform, platform.Documented → ∀ events : List Event,
      (Page.after events).Filled → Agrees platform (Page.after events) := by
  intro hclaim
  have hfiles : (Page.after (oneSample ['m'] ['s'])).Filled := by
    unfold Page.Filled
    decide
  have hagrees := hclaim plainPlatform plainPlatform_documented (oneSample ['m'] ['s']) hfiles
  have hsent := hagrees.types 0 { typeName := ['s'], file := some sampleFile } rfl
  rw [lookup_form_row hfiles rfl] at hsent
  exact absurd hsent (by decide)

end Whuctf.TextClustering
