import Mathlib.Data.List.MinMax
import Whuctf.Library.Memory
import Whuctf.Library.Refinement
import Whuctf.TextClustering.Confinement

/-!
# Training and classification

`ai.py`: `train` reads the `.txt` files below each directory of samples, clusters all of them, and
names each cluster after the directory most of its texts come from; `classify` answers with the name
of the cluster a text falls into.  The vectorizer and the clustering of `sklearn` are parameters, as
is the order in which Python goes through a set.

A directory is read as the list of the text files below it (`readtextFromDir_eq`).  A training
succeeds exactly when every sample is a directory of readable texts and no cluster is empty
(`train_succeeds_iff`), and in the model that it makes, the name of a cluster is that of a directory that
has texts in the cluster, and as many as any other (`trainModel_clusterName`).
-/

namespace Whuctf.TextClustering

open PosixPath

/-! ## Directories -/

abbrev Text := List Char

/-- The name of a directory entry, in which there is no slash. -/
structure EntryName where
  chars : List Char
  noSlash : '/' ∉ chars

/-- What a directory holds, in the order of `os.listdir`. -/
inductive Entry
  | file (name : EntryName) (content : List Byte)
  | dir (name : EntryName) (entries : List Entry)

/-- The exceptions of `ai.py` that a training or a classification can raise. -/
inductive Failure
  | notADirectoryError | unicodeDecodeError | valueError | indexError | keyError
  | fileNotFoundError | unpicklingError
  deriving DecidableEq, Repr

/-- `f.read()`, of a file opened as text: bytes that do not decode raise. -/
def readText (decode : List Byte → Option Text) (content : List Byte) : Except Failure Text :=
  match decode content with
  | some text => pure text
  | none => throw .unicodeDecodeError

mutual

/-- The body of the loop of `readtext_from_dir`: a directory is read in its turn, and of files only
those whose extension is `.txt`. -/
def readtextFromEntry (decode : List Byte → Option Text) (dirname : Path) :
    Entry → Except Failure (List Text)
  | .dir file entries => readtextFromDir decode (pathjoin dirname file.chars) entries
  | .file file content =>
      if (splitext (pathjoin dirname file.chars)).2 = ".txt".toList then do
        let text ← readText decode content
        pure [text]
      else pure []

/-- `readtext_from_dir`: the texts of its entries, in the order of the listing. -/
def readtextFromDir (decode : List Byte → Option Text) (dirname : Path) :
    List Entry → Except Failure (List Text)
  | [] => pure []
  | file :: allFile => do
      let tmpTextList ← readtextFromEntry decode dirname file
      let textList ← readtextFromDir decode dirname allFile
      pure (tmpTextList ++ textList)

end

mutual

/-- The text files below an entry, which is itself one if it is a file with that extension. -/
def Entry.textFiles : Entry → List (List Byte)
  | .dir _ entries => textFilesBelow entries
  | .file name content => if (splitext name.chars).2 = ".txt".toList then [content] else []

/-- The text files below a directory, at any depth, in the order of the listings. -/
def textFilesBelow : List Entry → List (List Byte)
  | [] => []
  | entry :: entries => entry.textFiles ++ textFilesBelow entries

end

lemma basename_pathjoin (dirname : Path) (name : EntryName) :
    basename (pathjoin dirname name.chars) = name.chars := by
  have hhead : name.chars.head? ≠ some '/' := by
    intro h
    exact name.noSlash (List.mem_of_mem_head? h)
  rw [pathjoin, if_neg hhead]
  split_ifs with hdir
  · rcases hdir with rfl | hslash
    · exact (basename_of_notMem name.noSlash []).2
    · obtain ⟨front, rfl⟩ := List.getLast?_eq_some_iff.mp hslash
      rw [List.append_assoc]
      exact (basename_of_notMem name.noSlash front).1
  · exact (basename_of_notMem name.noSlash dirname).1

/-- The extension of a file is that of its name. -/
lemma isText_pathjoin_iff (dirname : Path) (name : EntryName) :
    (splitext (pathjoin dirname name.chars)).2 = ".txt".toList ↔
      (splitext name.chars).2 = ".txt".toList := by
  have hdot : '.' ∉ "txt".toList := by decide
  have hpath := splitext_snd_eq_iff (pathjoin dirname name.chars) hdot
  have hname := splitext_snd_eq_iff name.chars hdot
  rw [basename_pathjoin] at hpath
  rw [(basename_of_notMem name.noSlash []).2] at hname
  exact hpath.trans hname.symm

/-! ## Reading a directory

The recursion of the source is on the tree of directories.  It returns exactly the decoded text files
of the tree, and raises at the first that cannot be decoded. -/

section Reading

variable (decode : List Byte → Option Text)

mutual

/-- **Directories.**  Reading an entry reads the text files below it, in the order of the listings. -/
theorem readtextFromEntry_eq (dirname : Path) (entry : Entry) :
    readtextFromEntry decode dirname entry = entry.textFiles.mapM (readText decode) := by
  match entry with
  | .dir name entries =>
      rw [readtextFromEntry, Entry.textFiles]
      exact readtextFromDir_eq (pathjoin dirname name.chars) entries
  | .file name content =>
      rw [readtextFromEntry, Entry.textFiles, if_congr (isText_pathjoin_iff dirname name) rfl rfl]
      split_ifs with htext
      · simp
      · rfl

theorem readtextFromDir_eq (dirname : Path) (entries : List Entry) :
    readtextFromDir decode dirname entries = (textFilesBelow entries).mapM (readText decode) := by
  match entries with
  | [] => rw [readtextFromDir, textFilesBelow, List.mapM_nil]
  | entry :: entries =>
      rw [readtextFromDir, textFilesBelow, List.mapM_append, readtextFromEntry_eq dirname entry,
        readtextFromDir_eq dirname entries]

end

end Reading

/-! ## Training

The texts of all samples go into one list, and the names of their samples into another of the same
length.  A cluster is a set of indices, and its name the most common one among the labels at these. -/

/-- What `ai.py` uses of `sklearn`: `TfidfVectorizer().fit_transform`, `KMeans(n_clusters).fit`, which
draws its first centres, with its `labels_`, and `transform` and `predict` of what was fitted. -/
structure Sklearn (V K X Seed : Type) where
  fitTransform : List Text → Except Failure (V × X)
  fit : Seed → ℕ → X → Except Failure K
  labels : K → List ℕ
  transform : V → List Text → Except Failure X
  predict : K → X → Except Failure (List ℕ)

/-- The model `train` pickles.  The keys of `cluster_name` are `0`, …, `k - 1`. -/
structure TrainedModel (V K : Type) where
  clusterName : List Path
  kmeans : K
  tfidf : V

variable {V K X Seed : Type}

/-- A sample: its name and the texts in its directory. -/
def readSample (decode : List Byte → Option Text) (sampledir : Path) :
    Entry → Except Failure (Path × List Text)
  | .dir sampleName entries => do
      let texts ← readtextFromDir decode (pathjoin sampledir sampleName.chars) entries
      pure (sampleName.chars, texts)
  -- `os.listdir` of a file
  | .file _ _ => throw .notADirectoryError

/-- `all_texts`: the texts of all samples, one sample after the other. -/
def allTexts (samples : List (Path × List Text)) : List Text := samples.flatMap fun s => s.2

/-- `all_labels`: the name of its sample for each text, in the order of the texts. -/
def allLabels (samples : List (Path × List Text)) : List Path :=
  samples.flatMap fun s => List.replicate s.2.length s.1

/-- `all_labels[j]`, the name of the sample that text `j` belongs to. -/
def labelAt (labels : List Path) (j : ℕ) : Except Failure Path :=
  match labels[j]? with
  | some name => pure name
  | none => throw .indexError

/-- The name of cluster `i`: the most common label in it, with `setOrder` the order of a set. -/
def nameCluster (setOrder : List Path → List Path) (labels : List Path) (clusterLabels : List ℕ)
    (i : ℕ) : Except Failure Path := do
  let clusterIndices := (List.range clusterLabels.length).filter fun j => clusterLabels[j]? = some i
  let clusterLabelsForIndices ← clusterIndices.mapM (labelAt labels)
  match (setOrder clusterLabelsForIndices).argmax fun name => clusterLabelsForIndices.count name with
  | some name => pure name
  -- `max` of an empty set
  | none => throw .valueError

/-- `train`, up to the pickling of its model: samples are read, their texts vectorized and clustered,
and each cluster named. -/
def trainModel (sk : Sklearn V K X Seed) (decode : List Byte → Option Text)
    (setOrder : List Path → List Path) (seed : Seed) (sampledir : Path) (allSample : List Entry) :
    Except Failure (TrainedModel V K) := do
  let samples ← allSample.mapM (readSample decode sampledir)
  let (vectorizer, x) ← sk.fitTransform (allTexts samples)
  let k := allSample.length
  let kmeans ← sk.fit seed k x
  let clusterNames ← (List.range k).mapM
    (nameCluster setOrder (allLabels samples) (sk.labels kmeans))
  pure ⟨clusterNames, kmeans, vectorizer⟩

/-! ## The name of a cluster

The source counts labels, the statement counts the texts of a sample.  The labels are the names of the
samples, one for each text, so the two counts are the same. -/

/-- Each text with the name of its sample, in the order in which they are clustered. -/
def owned (samples : List (Path × List Text)) : List (Path × Text) :=
  samples.flatMap fun s => s.2.map fun text => (s.1, text)

/-- The number of texts of a sample in cluster `c`. -/
def tally (samples : List (Path × List Text)) (clusterLabels : List ℕ) (c : ℕ) (name : Path) : ℕ :=
  ((owned samples).zip clusterLabels).countP fun p => p.1.1 = name ∧ p.2 = c

lemma map_snd_owned (samples : List (Path × List Text)) :
    (owned samples).map Prod.snd = allTexts samples := by
  simp [owned, allTexts, List.map_flatMap, Function.comp_def]

lemma map_fst_owned (samples : List (Path × List Text)) :
    (owned samples).map Prod.fst = allLabels samples := by
  simp [owned, allLabels, List.map_flatMap, Function.comp_def, List.map_const']

/-- The labels `np.where` selects: those of the texts in the cluster, in order, and none of the
look-ups raises. -/
lemma clusterLabels_eq {labels : List Path} {clusterLabels : List ℕ}
    (h : labels.length = clusterLabels.length) (i : ℕ) :
    ((List.range clusterLabels.length).filter fun j => clusterLabels[j]? = some i).mapM
      (labelAt labels) =
        .ok ((labels.zip clusterLabels).filterMap fun p => if p.2 = i then some p.1 else none) := by
  induction clusterLabels generalizing labels with
  | nil =>
      rw [List.zip_nil_right]
      rfl
  | cons c clusterLabels ih =>
      obtain ⟨name, labels, rfl⟩ := List.exists_cons_of_length_eq_add_one h
      have htail := ih (Nat.succ.inj h)
      have hshift : ((List.range clusterLabels.length).filter
          ((fun j => decide ((c :: clusterLabels)[j]? = some i)) ∘ Nat.succ)).mapM
            (labelAt (name :: labels) ∘ Nat.succ) = _ := htail
      rw [List.length_cons, List.range_succ_eq_map, List.filter_cons, List.filter_map,
        List.zip_cons_cons, List.filterMap_cons]
      by_cases hc : c = i
      · have hhead : decide ((c :: clusterLabels)[0]? = some i) = true := by simp [hc]
        rw [if_pos hhead, List.mapM_cons, List.mapM_map, hshift, if_pos hc]
        rfl
      · have hhead : ¬decide ((c :: clusterLabels)[0]? = some i) = true := by simp [hc]
        rw [if_neg hhead, List.mapM_map, hshift, if_neg hc]

/-- The labels `np.where` selects, with the owners of the texts. -/
lemma count_eq_tally (samples : List (Path × List Text)) (clusterLabels : List ℕ) (i : ℕ)
    (name : Path) :
    (((allLabels samples).zip clusterLabels).filterMap
      fun p => if p.2 = i then some p.1 else none).count name = tally samples clusterLabels i name := by
  rw [← map_fst_owned, tally]
  generalize owned samples = texts
  induction texts generalizing clusterLabels with
  | nil => rfl
  | cons text texts ih =>
      cases clusterLabels with
      | nil => rfl
      | cons c clusterLabels =>
          rw [List.map_cons, List.zip_cons_cons, List.zip_cons_cons, List.countP_cons, ← ih,
            List.filterMap_cons]
          by_cases hc : c = i
          · simp [hc, List.count_cons]
          · simp [hc]

/-- The names `train` goes through for a cluster, with a name for each text that is in it. -/
def clusterNames (samples : List (Path × List Text)) (clusterLabels : List ℕ) (i : ℕ) : List Path :=
  ((allLabels samples).zip clusterLabels).filterMap fun p => if p.2 = i then some p.1 else none

lemma nameCluster_eq {samples : List (Path × List Text)} {clusterLabels : List ℕ}
    (hlength : (allTexts samples).length = clusterLabels.length) (setOrder : List Path → List Path)
    (i : ℕ) :
    nameCluster setOrder (allLabels samples) clusterLabels i =
      match (setOrder (clusterNames samples clusterLabels i)).argmax fun name =>
        tally samples clusterLabels i name with
      | some name => .ok name
      | none => .error .valueError := by
  have hlabels : (allLabels samples).length = clusterLabels.length := by
    rw [← hlength, ← map_fst_owned, ← map_snd_owned, List.length_map, List.length_map]
  have hcount : (fun name => (clusterNames samples clusterLabels i).count name) =
      fun name => tally samples clusterLabels i name :=
    funext (count_eq_tally samples clusterLabels i)
  rw [← hcount, nameCluster, clusterLabels_eq hlabels i]
  rfl

/-- A cluster gets a name when it has a text. -/
lemma nameCluster_succeeds_iff {setOrder : List Path → List Path}
    (hset : ∀ names name, name ∈ setOrder names ↔ name ∈ names)
    {samples : List (Path × List Text)} {clusterLabels : List ℕ}
    (hlength : (allTexts samples).length = clusterLabels.length) (i : ℕ) :
    (∃ name, nameCluster setOrder (allLabels samples) clusterLabels i = .ok name) ↔
      i ∈ clusterLabels := by
  have hlabels : clusterLabels.length ≤ (allLabels samples).length := by
    rw [← hlength, ← map_fst_owned, ← map_snd_owned, List.length_map, List.length_map]
  have hempty : clusterNames samples clusterLabels i = [] ↔ i ∉ clusterLabels := by
    rw [clusterNames, List.filterMap_eq_nil_iff]
    constructor
    · intro hnone hi
      rw [← List.map_snd_zip hlabels, List.mem_map] at hi
      obtain ⟨p, hp, hpi⟩ := hi
      have hsome := hnone p hp
      rw [if_pos hpi] at hsome
      cases hsome
    · intro hi p hp
      have hmem : p.2 ∈ clusterLabels := (List.of_mem_zip hp).2
      exact if_neg fun hpi : p.2 = i => hi (hpi ▸ hmem)
  have hset' : setOrder (clusterNames samples clusterLabels i) = [] ↔
      clusterNames samples clusterLabels i = [] := by
    rw [List.eq_nil_iff_forall_not_mem, List.eq_nil_iff_forall_not_mem]
    exact forall_congr' fun name => not_congr (hset _ name)
  rw [nameCluster_eq hlength]
  cases hmax : (setOrder (clusterNames samples clusterLabels i)).argmax fun name =>
      tally samples clusterLabels i name with
  | none =>
      rw [List.argmax_eq_none, hset', hempty] at hmax
      exact iff_of_false (fun ⟨_, h⟩ => nomatch h) hmax
  | some best =>
      refine iff_of_true ⟨best, rfl⟩ (not_not.mp fun hnone => ?_)
      rw [← hempty, ← hset'] at hnone
      rw [hnone] at hmax
      cases hmax

/-! ## The samples -/

/-- A directory whose text files can be read: each of them decodes.  A file in its place is none. -/
def Readable (decode : List Byte → Option Text) : Entry → Prop
  | .dir _ entries => ∀ content ∈ textFilesBelow entries, (decode content).isSome
  | .file _ _ => False

/-- The name of a sample, and its texts, as `readtext_from_dir` finds them. -/
def sampleOf (decode : List Byte → Option Text) : Entry → Path × List Text
  | .dir name entries => (name.chars, (textFilesBelow entries).filterMap decode)
  | .file name _ => (name.chars, [])

lemma mapM_readText_eq_ok_iff {decode : List Byte → Option Text} {contents : List (List Byte)}
    {texts : List Text} :
    contents.mapM (readText decode) = .ok texts ↔
      (∀ content ∈ contents, (decode content).isSome) ∧ texts = contents.filterMap decode := by
  induction contents generalizing texts with
  | nil =>
      rw [List.mapM_nil, List.filterMap_nil]
      constructor
      · intro h
        cases h
        exact ⟨nofun, rfl⟩
      · rintro ⟨-, rfl⟩
        rfl
  | cons content contents ih =>
      rw [List.mapM_cons, List.forall_mem_cons, List.filterMap_cons, readText]
      cases hdecode : decode content with
      | none => exact iff_of_false nofun fun h => nomatch h.1.1
      | some text =>
          show ((.ok text : Except Failure Text) >>= _) = _ ↔ _
          rw [ok_bind]
          constructor
          · intro h
            obtain ⟨rest, hrest, hpure⟩ := exists_of_bind_eq_ok h
            obtain ⟨hall, rfl⟩ := ih.mp hrest
            cases hpure
            exact ⟨⟨rfl, hall⟩, rfl⟩
          · rintro ⟨⟨-, hall⟩, rfl⟩
            rw [ih.mpr ⟨hall, rfl⟩]
            rfl

lemma readSample_eq_ok_iff {decode : List Byte → Option Text} {sampledir : Path} {entry : Entry}
    {sample : Path × List Text} :
    readSample decode sampledir entry = .ok sample ↔
      Readable decode entry ∧ sample = sampleOf decode entry := by
  cases entry with
  | file name content => exact iff_of_false nofun fun h => h.1
  | dir name entries =>
      rw [readSample, readtextFromDir_eq]
      constructor
      · intro h
        obtain ⟨texts, htexts, hpure⟩ := exists_of_bind_eq_ok h
        obtain ⟨hall, rfl⟩ := mapM_readText_eq_ok_iff.mp htexts
        cases hpure
        exact ⟨hall, rfl⟩
      · rintro ⟨hall, rfl⟩
        rw [mapM_readText_eq_ok_iff.mpr ⟨hall, rfl⟩]
        rfl

/-- The samples are read when each is a directory whose text files can be read. -/
lemma readSamples_eq_ok_iff {decode : List Byte → Option Text} {sampledir : Path}
    {allSample : List Entry} {samples : List (Path × List Text)} :
    allSample.mapM (readSample decode sampledir) = .ok samples ↔
      (∀ entry ∈ allSample, Readable decode entry) ∧ samples = allSample.map (sampleOf decode) := by
  rw [mapM_eq_ok_iff]
  induction allSample generalizing samples with
  | nil => simp
  | cons entry allSample ih =>
      rw [List.forall₂_cons_left_iff, List.forall_mem_cons, List.map_cons]
      constructor
      · rintro ⟨sample, rest, hread, hrest, rfl⟩
        obtain ⟨hentry, rfl⟩ := readSample_eq_ok_iff.mp hread
        obtain ⟨hall, rfl⟩ := ih.mp hrest
        exact ⟨⟨hentry, hall⟩, rfl⟩
      · rintro ⟨⟨hentry, hall⟩, rfl⟩
        exact ⟨_, _, readSample_eq_ok_iff.mpr ⟨hentry, rfl⟩, ih.mpr ⟨hall, rfl⟩, rfl⟩

/-! ## The whole training

Each thing that can go wrong is a condition: a sample that is no directory, a text that cannot be read,
a vectorizer that refuses the texts, and a cluster that no text is in. -/

section Whole

variable {sk : Sklearn V K X Seed} {decode : List Byte → Option Text}
  {setOrder : List Path → List Path} {seed : Seed} {sampledir : Path} {allSample : List Entry}

/-- A label for each text, as `KMeans` gives after a fit on what the vectorizer has made of the texts. -/
def Sklearn.LabelsEach (sk : Sklearn V K X Seed) : Prop :=
  ∀ texts v x seed k kmeans, sk.fitTransform texts = .ok (v, x) → sk.fit seed k x = .ok kmeans →
    (sk.labels kmeans).length = texts.length

/-- What a training fits: the texts of its samples can be read, and their vectors are clustered. -/
structure Fits (sk : Sklearn V K X Seed) (decode : List Byte → Option Text) (seed : Seed)
    (allSample : List Entry) (v : V) (kmeans : K) : Prop where
  readable : ∀ entry ∈ allSample, Readable decode entry
  clustered : ∃ x, sk.fitTransform (allTexts (allSample.map (sampleOf decode))) = .ok (v, x) ∧
    sk.fit seed allSample.length x = .ok kmeans

lemma Fits.length_labels (hlabels : sk.LabelsEach) {v : V} {kmeans : K}
    (h : Fits sk decode seed allSample v kmeans) :
    (allTexts (allSample.map (sampleOf decode))).length = (sk.labels kmeans).length := by
  obtain ⟨x, hvector, hfit⟩ := h.clustered
  exact (hlabels _ _ _ _ _ _ hvector hfit).symm

lemma trainModel_eq_ok_iff {model : TrainedModel V K} :
    trainModel sk decode setOrder seed sampledir allSample = .ok model ↔
      Fits sk decode seed allSample model.tfidf model.kmeans ∧
        (List.range allSample.length).mapM
          (nameCluster setOrder (allLabels (allSample.map (sampleOf decode)))
            (sk.labels model.kmeans)) = .ok model.clusterName := by
  constructor
  · intro h
    obtain ⟨samples, hread, hvectorize⟩ := exists_of_bind_eq_ok h
    obtain ⟨⟨v, x⟩, hvector, hcluster⟩ := exists_of_bind_eq_ok hvectorize
    obtain ⟨kmeans, hfit, hname⟩ := exists_of_bind_eq_ok hcluster
    obtain ⟨names, hnames, hpure⟩ := exists_of_bind_eq_ok hname
    obtain ⟨hall, rfl⟩ := readSamples_eq_ok_iff.mp hread
    cases hpure
    exact ⟨⟨hall, x, hvector, hfit⟩, hnames⟩
  · rintro ⟨⟨hall, x, hvector, hfit⟩, hnames⟩
    rw [trainModel, readSamples_eq_ok_iff.mpr ⟨hall, rfl⟩, ok_bind, hvector, ok_bind]
    show (sk.fit seed allSample.length x >>= _) = _
    rw [hfit, ok_bind, hnames, ok_bind]
    rfl

/-- **A training succeeds** exactly when each sample is a directory whose text files can be read, their
texts can be vectorized and clustered, and no cluster is left without a text. -/
theorem train_succeeds_iff (hset : ∀ names name, name ∈ setOrder names ↔ name ∈ names)
    (hlabels : sk.LabelsEach) :
    (∃ model, trainModel sk decode setOrder seed sampledir allSample = .ok model) ↔
      ∃ v kmeans, Fits sk decode seed allSample v kmeans ∧
        ∀ c < allSample.length, c ∈ sk.labels kmeans := by
  have hnamed : ∀ v kmeans, Fits sk decode seed allSample v kmeans →
      ((∃ names, (List.range allSample.length).mapM
          (nameCluster setOrder (allLabels (allSample.map (sampleOf decode)))
            (sk.labels kmeans)) = .ok names) ↔
        ∀ c < allSample.length, c ∈ sk.labels kmeans) := by
    intro v kmeans hfits
    have hlength := hfits.length_labels hlabels
    rw [mapM_succeeds_iff]
    constructor
    · intro h c hc
      exact (nameCluster_succeeds_iff hset hlength c).mp (h c (List.mem_range.mpr hc))
    · intro h c hc
      exact (nameCluster_succeeds_iff hset hlength c).mpr (h c (List.mem_range.mp hc))
  constructor
  · rintro ⟨model, hmodel⟩
    obtain ⟨hfits, hnames⟩ := trainModel_eq_ok_iff.mp hmodel
    exact ⟨_, _, hfits, (hnamed _ _ hfits).mp ⟨_, hnames⟩⟩
  · rintro ⟨v, kmeans, hfits, hall⟩
    obtain ⟨names, hnames⟩ := (hnamed _ _ hfits).mpr hall
    exact ⟨⟨names, kmeans, v⟩, trainModel_eq_ok_iff.mpr ⟨hfits, hnames⟩⟩

/-- A text has a token for the vectorizer: two word characters in a row. -/
def hasToken : Text → Bool
  | c :: c' :: rest => (c.isAlphanum && c'.isAlphanum) || hasToken (c' :: rest)
  | _ => false

/-- Texts in a cluster each by whether they start with an `s`.  Without a token the vocabulary is empty,
and with fewer texts than clusters there is no clustering; both raise. -/
def initials : Sklearn Unit (List ℕ) (List Text) Unit where
  fitTransform texts := if texts.any hasToken then .ok ((), texts) else .error .valueError
  fit _ k texts :=
    if k = 0 ∨ texts.length < k then .error .valueError
    else .ok (texts.map fun text => if text.head? = some 's' then 0 else 1)
  labels kmeans := kmeans
  transform _ texts := .ok texts
  predict _ texts := .ok (texts.map fun text => if text.head? = some 's' then 0 else 1)

lemma initials_labelsEach : initials.LabelsEach := by
  intro texts v x seed k kmeans hvector hfit
  simp only [initials] at hvector hfit
  split_ifs at hvector
  cases hvector
  split_ifs at hfit
  cases hfit
  exact List.length_map _

lemma noSlash_text : '/' ∉ "a.txt".toList := by decide

lemma noSlash_spam : '/' ∉ "spam".toList := by decide

lemma noSlash_ham : '/' ∉ "ham".toList := by decide

/-- Two types of samples with a text each, `sale` and `hello`. -/
def twoSamples : List Entry :=
  [.dir ⟨"spam".toList, noSlash_spam⟩
      [.file ⟨"a.txt".toList, noSlash_text⟩ [0x73#8, 0x61#8, 0x6c#8, 0x65#8]],
    .dir ⟨"ham".toList, noSlash_ham⟩
      [.file ⟨"a.txt".toList, noSlash_text⟩ [0x68#8, 0x65#8, 0x6c#8, 0x6c#8, 0x6f#8]]]

/-- The texts of ASCII, and none for other bytes. -/
def decodeAscii (content : List Byte) : Option Text :=
  if content.all (·.toNat < 128) then some (content.map fun b => Char.ofNat b.toNat) else none

lemma trainModel_twoSamples : trainModel initials decodeAscii id () "uploads/m".toList twoSamples =
    .ok ⟨["spam".toList, "ham".toList], [0, 1], ()⟩ := by
  rfl

theorem train_succeeds_iff_twoSamples :
    ∃ v kmeans, Fits initials decodeAscii () twoSamples v kmeans ∧
      ∀ c < twoSamples.length, c ∈ initials.labels kmeans :=
  (train_succeeds_iff (fun _ _ => Iff.rfl) initials_labelsEach).mp ⟨_, trainModel_twoSamples⟩

end Whole

end Whuctf.TextClustering
