import Whuctf.Library.Numerals

/-!
# The server of text-clustering

The server of `app.py` trains models on samples that are uploaded to it.  `/train` saves the uploaded
samples, extracts each into a directory named after its type, and trains a model on the result.  It
runs over any file system: the operations of the file system and of the model can do and raise what
they will, and what they do is part of the state.

What the handler returns is a response or an exception, and Flask turns the latter into an error page.
A missing field is `None`, and the operations on it that Python does not have raise `TypeError`.

For every sample below the count in its query the handler needs a type in the form.  With a type for
each it never operates on a missing field (`train_noTypeError`).
-/

namespace Whuctf.TextClustering

open Numerals

/-! ## The program

The handler reads its arguments, refuses names, makes a directory, and goes through the samples twice:
first all archives are saved, and then each is extracted and removed.  Everything outside of it is in
two records, for what it reads with and for what it acts on. -/

abbrev Path := List Char

/-- `os.path.join(a, b)`: an absolute `b` takes the place of the whole, and otherwise there is one
slash between the two. -/
def pathjoin (a b : Path) : Path :=
  if b.head? = some '/' then b
  else if a = [] ∨ a.getLast? = some '/' then a ++ b
  else a ++ '/' :: b

/-- An uploaded file, with the name the browser sends along. -/
structure File where
  filename : List Char
  content : List (BitVec 8)
  deriving DecidableEq

/-- What a handler reads from a request: the query, the uploads and the form. -/
structure Request where
  args : List (List Char × List Char)
  files : List (List Char × File)
  form : List (List Char × List Char)

inductive Response
  | text (body : List Char)
  | json (message : List Char)

/-- What the surroundings of the handler contribute to the reading of its arguments. -/
structure Platform where
  /-- A key or value of the query, as Flask decodes what the browser has encoded. -/
  unquote : List Char → List Char
  /-- `int(text)`, or nothing where it raises `ValueError`. -/
  int : List Char → Option ℤ

/-- The exceptions of `/train` itself; an operation on `None` raises `TypeError`. -/
inductive RequestError
  | typeError | valueError
  deriving DecidableEq, Repr

/-- The exceptions of `/train` and of its surroundings, which the handler does not tell apart: either
ends the request. -/
inductive TrainError (ε : Type)
  | request (e : RequestError)
  | environment (e : ε)

/-- An operation on the state of the surroundings that can raise. -/
abbrev Operation (σ ε α : Type) := ExceptT ε (StateM σ) α

/-- The operations of the file system, of `zipfile` and of `ai`. -/
structure FileSystem (σ ε Info : Type) where
  makedirs : Path → Operation σ ε Unit
  save : File → Path → Operation σ ε Unit
  pathExists : Path → Operation σ ε Bool
  infolist : Path → Operation σ ε (List Info)
  extract : Path → Info → Path → Operation σ ε Unit
  remove : Path → Operation σ ε Unit
  trainModel : Path → Operation σ ε Unit

section Train

variable {σ ε Info : Type}

abbrev Handler (σ ε α : Type) := ExceptT (TrainError ε) (StateM σ) α

/-- An operation of the surroundings in the handler, with its exceptions among those of the handler. -/
def calling {α : Type} (op : Operation σ ε α) : Handler σ ε α := op.adapt .environment

/-- The reading of an argument in the handler, which depends on the request alone. -/
def reading {α : Type} (x : Except RequestError α) : Handler σ ε α :=
  ExceptT.mk (pure (x.mapError .request))

/-- `sample_{i}`, the key of an upload, under which the form has the file of sample `i`. -/
def sampleKey (i : ℕ) : List Char := "sample_".toList ++ numeral 10 i

/-- `sample_{i}_type`, the key of the type of an upload in the form. -/
def typeKey (i : ℕ) : List Char := sampleKey i ++ "_type".toList

/-- `sample_{i}.zip`, the name under which an upload is saved. -/
def zipName (i : ℕ) : List Char := sampleKey i ++ ".zip".toList

/-- `'..' in text`: two dots next to each other, anywhere in the text. -/
def hasDots : List Char → Bool
  | [] => false
  | c :: rest => (c = '.' ∧ rest.head? = some '.') || hasDots rest

/-- `int(request.args.get('sampleCount'))`, with a `TypeError` when there is none and a `ValueError`
when it is no number. -/
def readSampleCount (platform : Platform) (request : Request) : Except RequestError ℤ :=
  match request.args.lookup "sampleCount".toList with
  | none => .error .typeError
  | some text => match platform.int text with
    | none => .error .valueError
    | some n => .ok n

/-- The loop that saves the samples with the numbers `is`. -/
def saveSamples (fs : FileSystem σ ε Info) (request : Request) (uploadDir : Path) (is : List ℕ) :
    Handler σ ε Unit :=
  is.forM fun i => match request.files.lookup (sampleKey i) with
    | some sampleFile =>
        -- a file without a name counts as none
        if sampleFile.filename = [] then pure ()
        else calling (fs.save sampleFile (pathjoin uploadDir (zipName i)))
    | none => pure ()

/-- The extraction of sample `i` into `extractDir`: every member of the archive, and the archive
removed, if it is there. -/
def unpackSample (fs : FileSystem σ ε Info) (zipFilePath extractDir : Path) :
    Operation σ ε Unit := do
  if ← fs.pathExists zipFilePath then
    (← fs.infolist zipFilePath).forM fun info => fs.extract zipFilePath info extractDir
    fs.remove zipFilePath

/-- The loop that unpacks the samples with the numbers `is`, with the response when it returns. -/
def unpackSamples (fs : FileSystem σ ε Info) (request : Request) (uploadDir : Path) :
    List ℕ → Handler σ ε (Option Response)
  | [] => return none
  | i :: is => match request.form.lookup (typeKey i) with
    | none => throw (.request .typeError : TrainError ε)
    | some sampleType =>
        if hasDots sampleType then return some (.text "Bad sample type".toList)
        else do
          calling (unpackSample fs (pathjoin uploadDir (zipName i)) (pathjoin uploadDir sampleType))
          unpackSamples fs request uploadDir is

/-- The handler of `/train`.  It answers in the middle when a name has two dots or, for a model, a
slash, and with success when the training has returned. -/
def train (fs : FileSystem σ ε Info) (platform : Platform) (request : Request) :
    Handler σ ε Response := do
  let sampleCount ← reading (readSampleCount platform request)
  match request.args.lookup "model".toList with
  | none => return .text "Bad model name!!!".toList
  | some modelName =>
      if hasDots modelName ∨ '/' ∈ modelName then return .text "Bad model name!!!".toList
      else do
        let uploadDir := "uploads/".toList ++ modelName
        calling (fs.makedirs uploadDir)
        -- a negative count is an empty range
        saveSamples fs request uploadDir (List.range sampleCount.toNat)
        match ← unpackSamples fs request uploadDir (List.range sampleCount.toNat) with
        | some response => return response
        | none => do
            calling (fs.trainModel uploadDir)
            return .json "模型训练成功".toList

end Train

/-! ## Missing fields -/

section Missing

variable {σ ε Info α β : Type}

/-- A computation that does not operate on `None`, whatever state it starts in. -/
def NoTypeError (x : Handler σ ε α) : Prop := ∀ s, (x.run.run s).1 ≠ .error (.request .typeError)

lemma noTypeError_pure (a : α) : NoTypeError (pure a : Handler σ ε α) := by
  intro s
  exact nofun

lemma NoTypeError.bind {x : Handler σ ε α} {f : α → Handler σ ε β} (hx : NoTypeError x)
    (hf : ∀ a, NoTypeError (f a)) : NoTypeError (x >>= f) := by
  intro s
  have hfirst := hx s
  rw [ExceptT.run_bind, StateT.run_bind]
  obtain ⟨⟨result, after⟩, hrun⟩ : ∃ p, x.run.run s = p := ⟨_, rfl⟩
  rw [hrun] at hfirst ⊢
  cases result with
  | ok a => exact hf a after
  | error e => exact fun h => hfirst (congrArg Except.error (Except.error.inj h))

lemma noTypeError_calling (op : Operation σ ε α) : NoTypeError (calling op) := by
  intro s
  rw [calling, ExceptT.run_adapt, StateT.run_map]
  rcases op.run.run s with ⟨result, after⟩
  cases result with
  | ok a => exact nofun
  | error e => exact nofun

lemma noTypeError_forM {l : List β} {f : β → Handler σ ε Unit} (h : ∀ b, NoTypeError (f b)) :
    NoTypeError (l.forM f) := by
  induction l with
  | nil => exact noTypeError_pure ()
  | cons b rest ih =>
    show NoTypeError (f b >>= fun _ => rest.forM f)
    exact (h b).bind fun _ => ih

variable (fs : FileSystem σ ε Info) (request : Request) (uploadDir : Path)

lemma noTypeError_saveSamples (is : List ℕ) :
    NoTypeError (saveSamples fs request uploadDir is) := by
  apply noTypeError_forM
  intro i
  split
  · split_ifs
    · exact noTypeError_pure ()
    · exact noTypeError_calling _
  · exact noTypeError_pure ()

/-- The second loop, where each of its samples has a type. -/
lemma noTypeError_unpackSamples {is : List ℕ}
    (h : ∀ i ∈ is, request.form.lookup (typeKey i) ≠ none) :
    NoTypeError (unpackSamples fs request uploadDir is) := by
  induction is with
  | nil => exact noTypeError_pure none
  | cons i is ih =>
    rw [unpackSamples]
    split
    · rename_i hnone
      exact absurd hnone (h i List.mem_cons_self)
    · split_ifs
      · exact noTypeError_pure _
      · exact (noTypeError_calling _).bind fun _ => ih fun j hj => h j (List.mem_cons_of_mem i hj)

/-- With a type for every sample, the handler does not operate on a missing field. -/
theorem train_noTypeError {platform : Platform} {n : ℤ}
    (hcount : readSampleCount platform request = .ok n)
    (htypes : ∀ i : ℕ, i < n → request.form.lookup (typeKey i) ≠ none) :
    NoTypeError (train fs platform request) := by
  have hloop : ∀ i ∈ List.range n.toNat, request.form.lookup (typeKey i) ≠ none := by
    intro i hi
    have hlt := List.mem_range.mp hi
    exact htypes i (by omega)
  have hread : (reading (.ok n) : Handler σ ε ℤ) = pure n := rfl
  rw [train, hcount, hread, pure_bind]
  split
  · exact noTypeError_pure _
  · split_ifs
    · exact noTypeError_pure _
    · refine (noTypeError_calling _).bind fun _ => ?_
      refine (noTypeError_saveSamples fs request _ _).bind fun _ => ?_
      refine (noTypeError_unpackSamples fs request _ hloop).bind fun early => ?_
      cases early with
      | some response => exact noTypeError_pure response
      | none => exact (noTypeError_calling _).bind fun _ => noTypeError_pure _

end Missing

end Whuctf.TextClustering
