import Whuctf.Library.Invariant
import Whuctf.Library.PosixPath
import Whuctf.TextClustering.App

/-!
# Where text-clustering reads and writes

`/train` extracts samples below the directory of a model, and `ai.classify` unpickles a file below
`MODEL_DIR`.  The three names in these paths are checked differently: the model name of `/train` for two
dots and slashes, a sample type for two dots only, and the model name of `/classify` not at all.

So a relative sample type stays in its directory, but an absolute one takes its place.  The file that
`/classify` unpickles is any file that its model name leads to.

What the handlers do with paths is recorded next to the state of a file system that is otherwise left
open, so the statement is about every file system and every request.  Where a path leads is then a
matter of the path alone.
-/

namespace Whuctf.TextClustering

open PosixPath

/-! ## Classification -/

section Classify

variable {σ ε Bytes Model : Type}

/-- What `ai.classify` does with a file, and with the model in it. -/
structure Ai (σ ε Bytes Model : Type) where
  read : Path → Operation σ ε Bytes
  loads : Bytes → Operation σ ε Model
  predict : Model → List Char → Operation σ ε (List Char)

/-- `ai.classify`: the file of the name is opened, what is in it is unpickled, and the model found
there is asked. -/
def classify (ai : Ai σ ε Bytes Model) (modelDir modelName text : List Char) :
    Operation σ ε (List Char) := do
  let pklData ← ai.read (pathjoin modelDir modelName)
  let model ← ai.loads pklData
  ai.predict model text

/-- The handler of `/classify`, with the result that it sends; `text` reads `request.json['text']`. -/
def classifyText (ai : Ai σ ε Bytes Model) (modelDir : Path) (request : Request)
    (text : Operation σ ε (List Char)) : Handler σ ε (List Char) := do
  let text ← calling text
  match request.args.lookup "modelName".toList with
  -- joining a path and `None` raises `TypeError`
  | none => throw (.request .typeError : TrainError ε)
  | some modelName => calling (classify ai modelDir modelName text)

end Classify

/-! ## Recording paths

The record stands beside the state and no operation reads it, so a handler does on the recording file
system what it does on the other.  Only the operations in question add to it. -/

section Recording

variable {σ ε α Info Bytes Model : Type}

/-- An operation next to a record that it does not touch. -/
def unrecorded (op : Operation σ ε α) : Operation (σ × List Path) ε α :=
  ExceptT.mk fun s => ((op.run.run s.1).1, (op.run.run s.1).2, s.2)

/-- The record, with one more path; nothing else changes. -/
def noting (path : Path) : Operation (σ × List Path) ε Unit :=
  ExceptT.mk fun s => (.ok (), s.1, s.2 ++ [path])

/-- A file system that records the directories extracted into, and works as the one it is made from. -/
def FileSystem.recording (fs : FileSystem σ ε Info) : FileSystem (σ × List Path) ε Info where
  makedirs path := unrecorded (fs.makedirs path)
  save file path := unrecorded (fs.save file path)
  pathExists path := unrecorded (fs.pathExists path)
  infolist path := unrecorded (fs.infolist path)
  extract zipFilePath info dir := do
    noting dir
    unrecorded (fs.extract zipFilePath info dir)
  remove path := unrecorded (fs.remove path)
  trainModel path := unrecorded (fs.trainModel path)

/-- A classifier that records the files it reads, and works as the one it is made from. -/
def Ai.recording (ai : Ai σ ε Bytes Model) : Ai (σ × List Path) ε Bytes Model where
  read path := do
    noting path
    unrecorded (ai.read path)
  loads data := unrecorded (ai.loads data)
  predict model text := unrecorded (ai.predict model text)

/-- Every recorded path satisfies `P`.  As an invariant of a handler this says where the handler may
read or write. -/
def Recorded (P : Path → Prop) (s : σ × List Path) : Prop := ∀ path ∈ s.2, P path

variable {P : Path → Prop}

lemma keeps_unrecorded (op : Operation σ ε α) : Keeps (Recorded P) (unrecorded op) :=
  fun _ hs => hs

lemma keeps_noting {path : Path} (h : P path) :
    Keeps (Recorded P) (noting path : Operation (σ × List Path) ε Unit) := by
  intro s hs path' hpath'
  rcases List.mem_append.mp hpath' with hmem | hmem
  · exact hs path' hmem
  · exact List.mem_singleton.mp hmem ▸ h

lemma keeps_calling {op : Operation (σ × List Path) ε α} (h : Keeps (Recorded P) op) :
    Keeps (Recorded P) (calling op) := h.adapt _

end Recording

/-! ## What is recorded -/

/-- The directory of a model, relative to the current directory of the server. -/
def uploadDir (modelName : List Char) : Path := "uploads/".toList ++ modelName

/-- The directory of the samples of a type, below that of the model unless the type is an absolute
path. -/
def extractDir (modelName sampleType : List Char) : Path := pathjoin (uploadDir modelName) sampleType

/-- A model name and a sample type that `/train` accepts. -/
structure Accepted (modelName sampleType : List Char) : Prop where
  model_dots : hasDots modelName = false
  model_slash : '/' ∉ modelName
  type_dots : hasDots sampleType = false

section Runs

variable {σ ε Info Bytes Model : Type} (request : Request)

/-- A directory that `/train` may extract into: one of a type of the request that both checks let
through. -/
def Extracted (dir : Path) : Prop :=
  ∃ modelName i sampleType, request.args.lookup "model".toList = some modelName ∧
    request.form.lookup (typeKey i) = some sampleType ∧ Accepted modelName sampleType ∧
    dir = extractDir modelName sampleType

lemma keeps_unpackSamples (fs : FileSystem σ ε Info) {modelName : List Char}
    (hmodel : request.args.lookup "model".toList = some modelName)
    (hdots : hasDots modelName = false) (hslash : '/' ∉ modelName) (is : List ℕ) :
    Keeps (Recorded (Extracted request))
      (unpackSamples fs.recording request (uploadDir modelName) is) := by
  induction is with
  | nil => exact keeps_pure none
  | cons i is ih =>
    rw [unpackSamples]
    cases htype : request.form.lookup (typeKey i) with
    | none => exact keeps_throw _
    | some sampleType =>
      by_cases hsample : hasDots sampleType = true
      · simp only [if_pos hsample]
        exact keeps_pure _
      · simp only [if_neg hsample]
        have haccepted : Accepted modelName sampleType :=
          ⟨hdots, hslash, Bool.eq_false_of_not_eq_true hsample⟩
        have hdir : Extracted request (pathjoin (uploadDir modelName) sampleType) :=
          ⟨modelName, i, sampleType, hmodel, htype, haccepted, rfl⟩
        refine (keeps_calling ?_).bind fun _ => ih
        refine (keeps_unrecorded _).bind fun found => ?_
        split_ifs
        · refine (keeps_unrecorded _).bind fun infos => ?_
          refine Keeps.bind (keeps_forM fun info => ?_) fun _ => keeps_unrecorded _
          exact (keeps_noting hdir).bind fun _ => keeps_unrecorded _
        · exact keeps_pure _

/-- In every run of `/train` the directories extracted into come from accepted names. -/
lemma keeps_train (fs : FileSystem σ ε Info) (platform : Platform) :
    Keeps (Recorded (Extracted request)) (train fs.recording platform request) := by
  refine Keeps.bind (fun _ hs => hs) fun sampleCount => ?_
  cases hmodel : request.args.lookup "model".toList with
  | none => exact keeps_pure _
  | some modelName =>
    by_cases hname : hasDots modelName = true ∨ '/' ∈ modelName
    · simp only [if_pos hname]
      exact keeps_pure _
    · simp only [if_neg hname]
      simp only [not_or] at hname
      refine (keeps_calling (keeps_unrecorded _)).bind fun _ => ?_
      refine Keeps.bind ?_ fun _ => ?_
      · apply keeps_forM
        intro i
        split
        · split_ifs
          · exact keeps_pure _
          · exact keeps_calling (keeps_unrecorded _)
        · exact keeps_pure _
      · refine (keeps_unpackSamples request fs hmodel
          (Bool.eq_false_of_not_eq_true hname.1) hname.2 _).bind fun early => ?_
        cases early with
        | some response => exact keeps_pure _
        | none => exact (keeps_calling (keeps_unrecorded _)).bind fun _ => keeps_pure _

/-- A file that `/classify` may unpickle: the one that the request names, whatever the name is. -/
def Unpickled (modelDir path : Path) : Prop :=
  ∃ modelName, request.args.lookup "modelName".toList = some modelName ∧
    path = pathjoin modelDir modelName

/-- In every run of `/classify` the file unpickled is that of the model name. -/
lemma keeps_classifyText (ai : Ai σ ε Bytes Model) (modelDir : Path)
    (text : Operation σ ε (List Char)) :
    Keeps (Recorded (Unpickled request modelDir))
      (classifyText ai.recording modelDir request (unrecorded text)) := by
  refine (keeps_calling (keeps_unrecorded text)).bind fun text => ?_
  cases hname : request.args.lookup "modelName".toList with
  | none => exact keeps_throw _
  | some modelName =>
    apply keeps_calling
    refine Keeps.bind ?_ fun data => ?_
    · exact (keeps_noting ⟨modelName, hname, rfl⟩).bind fun _ => keeps_unrecorded _
    · exact (keeps_unrecorded _).bind fun model => keeps_unrecorded _

end Runs

/-! ## Where the paths lead

A path is resolved against a current directory.  Whether it stays below the directory it was joined to
is decided by its components, and the checks of the handlers look at its text. -/

/-- A joined path starts from its base, unless it is absolute. -/
lemma resolve_pathjoin (cwd : List Component) (base path : Path) :
    resolve cwd (pathjoin base path) =
      enterAll (if isAbsolute path then [] else resolve cwd base) (parts path) := by
  by_cases habsolute : path.head? = some '/'
  · have hpath : isAbsolute path = true := decide_eq_true habsolute
    rw [pathjoin, if_pos habsolute, resolve, hpath]
    rfl
  · have hpath : isAbsolute path = false := decide_eq_false habsolute
    rw [pathjoin, if_neg habsolute, hpath]
    by_cases hbase : base = [] ∨ base.getLast? = some '/'
    · rw [if_pos hbase]
      rcases hbase with rfl | hlast
      · rw [List.nil_append, resolve, hpath]
        rfl
      · obtain ⟨front, rfl⟩ : ∃ front, base = front ++ ['/'] :=
          List.getLast?_eq_some_iff.mp hlast
        have hparts : parts (front ++ ['/'] ++ path) = parts (front ++ ['/']) ++ parts path := by
          rw [List.append_assoc, List.singleton_append, parts_append_slash, parts_append_slash]
          simp [parts]
        have hhead : isAbsolute (front ++ ['/'] ++ path) = isAbsolute (front ++ ['/']) := by
          cases front <;> rfl
        rw [resolve, hparts, hhead, enterAll_append]
        rfl
    · rw [if_neg hbase]
      have hhead : isAbsolute (base ++ '/' :: path) = isAbsolute base := by
        cases base with
        | nil => simp at hbase
        | cons c base => rfl
      rw [resolve, parts_append_slash, hhead, enterAll_append]
      rfl

/-- A path stays below a directory that it is joined to: a relative one goes down again the way it
climbed up, and an absolute one goes down that way from the root. -/
def Descends (cwd : List Component) (base path : Path) : Prop :=
  (if isAbsolute path then resolve cwd base
    else (resolve cwd base).drop ((resolve cwd base).length - (climb (parts path)).1)) <+:
      (climb (parts path)).2

lemma under_pathjoin_iff (cwd : List Component) (base path : Path) :
    Under cwd base (pathjoin base path) ↔ Descends cwd base path := by
  rw [Under, resolve_pathjoin, Descends]
  cases hpath : isAbsolute path with
  | true => simp [enterAll_eq_climb]
  | false =>
    simp only [Bool.false_eq_true, if_false]
    exact prefix_enterAll_iff _ _

/-- A path starts with the first character of its first component. -/
lemma head_of_splitOn {path : List Char} {c : Char} {w : List Char} {tail : List (List Char)}
    (h : path.splitOn '/' = (c :: w) :: tail) : path.head? = some c := by
  cases path with
  | nil => simp at h
  | cons d rest =>
    rw [List.splitOn_cons_eq_if_modifyHead] at h
    split_ifs at h with hslash
    · simp at h
    · obtain ⟨head, others, hsplit⟩ := List.exists_cons_of_ne_nil (List.splitOn_ne_nil '/' rest)
      rw [hsplit, List.modifyHead_cons] at h
      simp only [List.cons.injEq] at h
      rw [List.head?_cons, h.1.1]

/-- A component of two dots shows in the text, so the check on the text finds it. -/
lemma hasDots_of_mem_splitOn {path : List Char} (h : parent ∈ path.splitOn '/') :
    hasDots path = true := by
  induction path with
  | nil => simp [parent] at h
  | cons c rest ih =>
    obtain ⟨head, tail, hsplit⟩ := List.exists_cons_of_ne_nil (List.splitOn_ne_nil '/' rest)
    have hrest : parent ∈ rest.splitOn '/' → hasDots (c :: rest) = true := by
      intro hmem
      rw [hasDots, ih hmem, Bool.or_true]
    rw [List.splitOn_cons_eq_if_modifyHead] at h
    split_ifs at h with hslash
    · rcases List.mem_cons.mp h with heq | hmem
      · simp [parent] at heq
      · exact hrest hmem
    · rw [hsplit, List.modifyHead_cons] at h
      rcases List.mem_cons.mp h with heq | hmem
      · -- the two dots are the first characters
        obtain ⟨rfl, rfl⟩ : '.' = c ∧ ['.'] = head := by simpa [parent] using heq
        simp [hasDots, head_of_splitOn hsplit]
      · exact hrest (hsplit ▸ List.mem_cons_of_mem head hmem)

/-- An accepted sample type leaves its directory only by being absolute. -/
lemma under_extractDir_iff (cwd : List Component) {modelName sampleType : List Char}
    (h : Accepted modelName sampleType) :
    Under cwd (uploadDir modelName) (extractDir modelName sampleType) ↔
      isAbsolute sampleType = true → resolve cwd (uploadDir modelName) <+: parts sampleType := by
  have hparent : parent ∉ parts sampleType := by
    intro hmem
    have hdots := hasDots_of_mem_splitOn (List.mem_of_mem_filter hmem)
    rw [h.type_dots] at hdots
    cases hdots
  rw [Under, extractDir, resolve_pathjoin, enterAll_eq_append hparent]
  cases hpath : isAbsolute sampleType with
  | true => simp
  | false => simp

/-- **Confinement.**  In every run `/train` extracts into directories of accepted names only, and
`/classify` unpickles the file of its model name only.  These lie below the directory of the model and
below `MODEL_DIR` exactly when the sample type is relative, or absolute and inside, and the model name
of `/classify` goes down again the way it climbed up. -/
theorem confined_iff (cwd : List Component) (modelDir : Path) :
    (∀ {σ ε Info : Type} (fs : FileSystem σ ε Info) (platform : Platform) (request : Request) (s : σ),
      Recorded (Extracted request) ((train fs.recording platform request).run.run (s, [])).2) ∧
    (∀ {σ ε Bytes Model : Type} (ai : Ai σ ε Bytes Model) (request : Request)
      (text : Operation σ ε (List Char)) (s : σ), Recorded (Unpickled request modelDir)
        ((classifyText ai.recording modelDir request (unrecorded text)).run.run (s, [])).2) ∧
    ∀ {modelName sampleType : List Char} (classifyName : List Char), Accepted modelName sampleType →
      (Under cwd (uploadDir modelName) (extractDir modelName sampleType) ∧
          Under cwd modelDir (pathjoin modelDir classifyName) ↔
        (isAbsolute sampleType = true → resolve cwd (uploadDir modelName) <+: parts sampleType) ∧
          Descends cwd modelDir classifyName) := by
  refine ⟨?_, ?_, ?_⟩
  · intro σ ε Info fs platform request s
    exact keeps_train request fs platform (s, []) nofun
  · intro σ ε Bytes Model ai request text s
    exact keeps_classifyText request ai modelDir text (s, []) nofun
  · intro modelName sampleType classifyName haccepted
    rw [under_extractDir_iff cwd haccepted, under_pathjoin_iff]

-- names that stay inside: a type and a model as the page sends them
example : Accepted "m".toList "spam".toList ∧
    Under ["app".toList] (uploadDir "m".toList) (extractDir "m".toList "spam".toList) ∧
    Under ["app".toList] "/app/models".toList (pathjoin "/app/models".toList "m.pkl".toList) :=
  ⟨⟨by decide, by decide, by decide⟩, by decide, by decide⟩

/-- An absolute sample type is accepted and leaves the directory of the model, and a model name with
two dots leaves `MODEL_DIR`. -/
theorem not_confined :
    Accepted "m".toList "/app/templates".toList ∧
      ¬Under ["app".toList] (uploadDir "m".toList)
        (extractDir "m".toList "/app/templates".toList) ∧
      ¬Under ["app".toList] "/app/models".toList
        (pathjoin "/app/models".toList "../uploads/m/t/a.txt".toList) := by
  refine ⟨⟨by decide, by decide, by decide⟩, by decide, by decide⟩

end Whuctf.TextClustering
