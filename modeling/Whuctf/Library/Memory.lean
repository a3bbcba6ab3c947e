import Mathlib.Algebra.Group.Nat.Even
import Mathlib.Data.BitVec
import Mathlib.Data.List.Basic
import Mathlib.Data.Set.Defs
import Mathlib.Tactic.Ring

/-!
# Byte-addressed memory

A memory is a total map from addresses to bytes, over any address type that can be offset by
a natural number: `ℕ` for a C program whose pointers never wrap, `BitVec 64` for a machine
whose effective addresses do.  `read` and `write` transfer a run of bytes, in increasing
address order.

The two facts every client needs are the frame (`write_apply_of_ne`: an address outside the
written run keeps its byte) and the read-back (`read_write_self`).  Both are stated on
offsets, so that one proof serves both address types: the read-back asks only that the
offsets below the length reach distinct addresses (`OffsetsDistinct`), and `Apart` says that
two runs share no address.
-/

namespace Whuctf

/-- A byte of memory, of a file or of a network stream. -/
abbrev Byte := BitVec 8

/-- Words have four bytes: the numerals of their indices rest on this one proof. -/
instance neZero_four : NeZero 4 := ⟨by decide⟩

/-- A byte-addressed memory, over any type of addresses: natural numbers, or words that wrap around. -/
abbrev Memory (A : Type*) := A → Byte

namespace Memory

variable {A : Type*} [AddMonoidWithOne A]

/-- The `n` bytes at `a`, `a + 1`, …, as a list, the one at the lowest offset first. -/
def read (m : Memory A) (a : A) (n : ℕ) : List Byte :=
  (List.range n).map fun i : ℕ => m (a + (i : A))

/-- Store a run of bytes at `a`, `a + 1`, …, lowest address first. -/
def write [DecidableEq A] (m : Memory A) (a : A) : List Byte → Memory A
  | [] => m
  | b :: bs => write (Function.update m a b) (a + 1) bs

/-- The first `n` offsets from `a` reach `n` different addresses.  Over `ℕ` that is always so, and for
a machine address as long as `n` does not exceed the size of the address space. -/
def OffsetsDistinct (a : A) (n : ℕ) : Prop :=
  ∀ i < n, ∀ j < n, a + (i : A) = a + (j : A) → i = j

/-- The run of `n` bytes at `a` and the run of `k` bytes at `b` share no address, also when one of them
wraps around. -/
def Apart (a : A) (n : ℕ) (b : A) (k : ℕ) : Prop :=
  ∀ i < n, ∀ j < k, a + (i : A) ≠ b + (j : A)

/-- The addresses of the run of `n` bytes at `a`. -/
def region (a : A) (n : ℕ) : Set A := {x | ∃ i < n, a + (i : A) = x}

/-! ## Regions

`Apart` is kept when runs get shorter and when one of them is cut, and `OffsetsDistinct` gives it
between the stretches of one run.  The layout of a program is stated with a few of these, and the rest
follows. -/

lemma Apart.symm {a b : A} {n k : ℕ} (h : Apart a n b k) : Apart b k a n :=
  fun i hi j hj heq => h j hj i hi heq.symm

/-- Shorter runs are separate too, when the longer ones from the same addresses are. -/
lemma Apart.mono {a b : A} {n k n' k' : ℕ} (h : Apart a n b k) (hn : n' ≤ n) (hk : k' ≤ k) :
    Apart a n' b k' :=
  fun i hi j hj => h i (by omega) j (by omega)

/-- A stretch inside the second run is separate from the first. -/
lemma Apart.inside {a b : A} {n k i l : ℕ} (h : Apart a n b k) (hi : i + l ≤ k) :
    Apart a n (b + (i : A)) l := by
  intro p hp q hq
  rw [add_assoc, ← Nat.cast_add]
  exact h p hp (i + q) (by omega)

/-- A stretch inside a run has addresses of the run only. -/
lemma region_inside {a : A} {n i l : ℕ} (hi : i + l ≤ n) : region (a + (i : A)) l ⊆ region a n := by
  rintro x ⟨p, hp, rfl⟩
  exact ⟨i + p, by omega, by rw [Nat.cast_add, add_assoc]⟩

/-- Two stretches of one run are separate when neither reaches into the other. -/
lemma OffsetsDistinct.apart {a : A} {n : ℕ} (h : OffsetsDistinct a n) {i j k l : ℕ}
    (hi : i + k ≤ n) (hj : j + l ≤ n) (hij : i + k ≤ j ∨ j + l ≤ i) :
    Apart (a + (i : A)) k (a + (j : A)) l := by
  intro p hp q hq heq
  rw [add_assoc, add_assoc, ← Nat.cast_add, ← Nat.cast_add] at heq
  have hsame := h (i + p) (by omega) (j + q) (by omega) heq
  omega

/-! ## Reading -/

@[simp] lemma length_read (m : Memory A) (a : A) (n : ℕ) : (m.read a n).length = n := by
  simp [read]

@[simp] lemma read_zero (m : Memory A) (a : A) : m.read a 0 = [] := rfl

@[simp] lemma getElem_read (m : Memory A) (a : A) (n i : ℕ) (h : i < (m.read a n).length) :
    (m.read a n)[i] = m (a + (i : A)) := by
  simp [read]

lemma read_add (m : Memory A) (a : A) (n k : ℕ) :
    m.read a (n + k) = m.read a n ++ m.read (a + (n : A)) k := by
  simp [read, List.range_add, Function.comp_def, add_assoc]

lemma take_read (m : Memory A) (a : A) {n k : ℕ} (h : k ≤ n) : (m.read a n).take k = m.read a k := by
  rw [← Nat.add_sub_cancel' h, read_add, List.take_left' (length_read m a k)]

lemma read_succ (m : Memory A) (a : A) (n : ℕ) :
    m.read a (n + 1) = m a :: m.read (a + 1) n := by
  rw [Nat.add_comm, read_add]
  simp [read]

lemma read_congr {m m' : Memory A} {a : A} {n : ℕ}
    (h : ∀ i < n, m (a + (i : A)) = m' (a + (i : A))) : m.read a n = m'.read a n := by
  simp only [read]
  exact List.map_congr_left fun i hi => h i (List.mem_range.mp hi)

lemma apply_eq_of_read_eq {B : Type*} [AddMonoidWithOne B] {m : Memory A} {m' : Memory B}
    {a : A} {b : B} {n : ℕ} (h : m.read a n = m'.read b n) {i : ℕ} (hi : i < n) :
    m (a + (i : A)) = m' (b + (i : B)) := by
  have hget := congrArg (fun l : List Byte => l[i]?) h
  simpa [read, hi] using hget

/-- Two runs are equal when they are so byte by byte. -/
lemma read_eq_iff (m : Memory A) (a b : A) (n : ℕ) :
    m.read a n = m.read b n ↔ ∀ i < n, m (a + (i : A)) = m (b + (i : A)) := by
  constructor
  · intro h i hi
    exact apply_eq_of_read_eq h hi
  · intro h
    simp only [read]
    exact List.map_congr_left fun i hi => h i (List.mem_range.mp hi)

/-- Two runs agree on a stretch inside them when they agree as a whole. -/
lemma read_eq_of_read_eq {B : Type*} [AddMonoidWithOne B] {m : Memory A} {m' : Memory B}
    {a : A} {b : B} {n : ℕ} (h : m.read a n = m'.read b n) {i k : ℕ} (hik : i + k ≤ n) :
    m.read (a + (i : A)) k = m'.read (b + (i : B)) k := by
  refine List.ext_getElem (by simp) fun j h₁ h₂ => ?_
  have hj : i + j < n := by
    rw [length_read] at h₁
    omega
  rw [getElem_read, getElem_read, add_assoc, add_assoc, ← Nat.cast_add, ← Nat.cast_add]
  exact apply_eq_of_read_eq h hj

/-! ## Writing

A store is described twice, address by address and run by run.  For an address outside its run there is
the frame, and for one inside the byte that was stored there. -/

section Write

variable [DecidableEq A]

@[simp] lemma write_nil (m : Memory A) (a : A) : m.write a [] = m := rfl

@[simp] lemma write_cons (m : Memory A) (a : A) (b : Byte) (bs : List Byte) :
    m.write a (b :: bs) = Memory.write (Function.update m a b) (a + 1) bs := rfl

omit [DecidableEq A] in
lemma add_one_add_cast (a : A) (i : ℕ) : a + 1 + (i : A) = a + ((i + 1 : ℕ) : A) := by
  rw [add_assoc, Nat.add_comm i 1, Nat.cast_add, Nat.cast_one]

/-- **Frame.**  A store leaves every address outside its run alone. -/
lemma write_apply_of_ne (m : Memory A) (a x : A) (bs : List Byte)
    (h : ∀ i < bs.length, a + (i : A) ≠ x) : m.write a bs x = m x := by
  induction bs generalizing m a with
  | nil => rfl
  | cons b bs ih =>
      have h0 : x ≠ a := by simpa using Ne.symm (h 0 (by simp))
      rw [write_cons, ih, Function.update_of_ne h0]
      intro i hi
      rw [add_one_add_cast]
      exact h (i + 1) (by simpa using hi)

/-- The same for an address outside a region the run fits in. -/
lemma write_apply_of_notMem (m : Memory A) (a x : A) {bs : List Byte} {n : ℕ}
    (hlen : bs.length ≤ n) (h : x ∉ region a n) : m.write a bs x = m x :=
  write_apply_of_ne m a x bs fun i hi heq => h ⟨i, by omega, heq⟩

/-- **Read-back.**  Each stored byte is found at its own offset, when the offsets are
distinct addresses. -/
lemma write_apply_add (m : Memory A) (a : A) (bs : List Byte)
    (hd : OffsetsDistinct a bs.length) {i : ℕ} (hi : i < bs.length) :
    m.write a bs (a + (i : A)) = bs[i] := by
  induction bs generalizing m a i with
  | nil => simp at hi
  | cons b bs ih =>
      rw [write_cons]
      cases i with
      | zero =>
          rw [write_apply_of_ne]
          · simp
          · intro j hj heq
            rw [add_one_add_cast] at heq
            exact absurd (hd _ (by simpa using hj) 0 (by simp) heq) (by omega)
      | succ i =>
          rw [← add_one_add_cast]
          refine ih _ _ (fun j hj k hk heq => ?_) (by simpa using hi)
          rw [add_one_add_cast, add_one_add_cast] at heq
          have := hd _ (by simpa using hj) _ (by simpa using hk) heq
          omega

lemma read_write_self (m : Memory A) (a : A) (bs : List Byte)
    (hd : OffsetsDistinct a bs.length) : (m.write a bs).read a bs.length = bs := by
  refine List.ext_getElem (by simp) fun i h₁ h₂ => ?_
  rw [getElem_read, write_apply_add m a bs hd h₂]

/-- A store at the start of a run replaces its leading bytes. -/
lemma read_write (m : Memory A) (a : A) {bs : List Byte} {n : ℕ} (h : bs.length ≤ n)
    (hd : OffsetsDistinct a n) : (m.write a bs).read a n = bs ++ (m.read a n).drop bs.length := by
  refine List.ext_getElem (by simp; omega) fun i hi _ => ?_
  have hin : i < n := by
    rwa [length_read] at hi
  rw [getElem_read]
  by_cases hlt : i < bs.length
  · rw [List.getElem_append_left hlt, write_apply_add]
    intro j hj k hk heq
    exact hd j (by omega) k (by omega) heq
  · rw [List.getElem_append_right (by omega), List.getElem_drop, getElem_read,
      Nat.add_sub_cancel' (by omega), write_apply_of_ne]
    intro j hj heq
    have hsame := hd j (by omega) i hin heq
    omega

/-- A stretch of a run filled with one byte has that byte throughout, wherever in the run it starts. -/
lemma read_write_replicate (m : Memory A) (a : A) (b : Byte) {n i k : ℕ} (hik : i + k ≤ n)
    (hd : OffsetsDistinct a n) :
    (m.write a (List.replicate n b)).read (a + (i : A)) k = List.replicate k b := by
  have hlength : (List.replicate n b).length = n := List.length_replicate
  refine List.ext_getElem (by simp) fun j h₁ h₂ => ?_
  have hj : j < k := by
    rwa [length_read] at h₁
  rw [getElem_read, add_assoc, ← Nat.cast_add, write_apply_add, List.getElem_replicate,
    List.getElem_replicate]
  · rwa [hlength]
  · omega

lemma read_write_of_apart (m : Memory A) (a b : A) (bs : List Byte) (n : ℕ)
    (h : Apart a bs.length b n) : (m.write a bs).read b n = m.read b n :=
  read_congr fun j hj => write_apply_of_ne _ _ _ _ fun i hi => h i hi j hj

lemma write_append (m : Memory A) (a : A) (bs cs : List Byte) :
    m.write a (bs ++ cs) = (m.write a bs).write (a + (bs.length : A)) cs := by
  induction bs generalizing m a with
  | nil => simp
  | cons b bs ih => rw [List.cons_append, write_cons, ih, write_cons, add_one_add_cast]; rfl

end Write

end Memory

end Whuctf
