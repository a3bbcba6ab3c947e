import Mathlib.Algebra.Group.End
import Mathlib.Algebra.Group.Semiconj.Basic
import Mathlib.Data.List.OfFn
import Mathlib.Data.List.FinRange

/-!
# Refinement of total functions by computations that can fail

A concrete computation `f` on representations refines an abstract function `g` when it succeeds on
every representation and returns the representation of the value of `g`.  The rules below follow the
control structure of a program: one step after another, and a loop over a list.  For a loop whose
steps refine permutations, the loop over the reversed list with the inverse steps refines the inverse
permutation, which is the shape of a decryption.

The representations of an abstract value are what `repr` gives, so a computation may do anything on
values that represent nothing.  Errors are those of a program over lists and texts, an index out of
range or a number that is no byte; a refinement shows that they do not occur.
-/

namespace Whuctf

universe u v w

section Except

variable {ε : Type u} {α : Type w} {β : Type v}

/-- The proof is not `rfl`, so that `simp` records the rewriting and the kernel does not have to find
it again by evaluating `f a`. -/
@[simp] lemma ok_bind {γ : Type v} (a : γ) (f : γ → Except ε β) :
    ((.ok a : Except ε γ) >>= f) = f a := by
  cases h : f a <;> exact h

lemma exists_of_bind_eq_ok {γ : Type v} {x : Except ε γ} {f : γ → Except ε β} {b : β}
    (h : (x >>= f) = .ok b) : ∃ a, x = .ok a ∧ f a = .ok b := by
  cases x with
  | error e => cases h
  | ok a => exact ⟨a, rfl, by rwa [ok_bind] at h⟩

/-- A traversal none of whose elements fails is the map of the values. -/
lemma mapM_ok {f : α → Except ε β} {g : α → β} {l : List α} (h : ∀ a ∈ l, f a = .ok (g a)) :
    l.mapM f = .ok (l.map g) := by
  induction l with
  | nil => rfl
  | cons a rest ih =>
    rw [List.mapM_cons, h a List.mem_cons_self, ih fun b hb => h b (List.mem_cons_of_mem a hb)]
    rfl

/-- A traversal succeeds with a list exactly when each element does with the entry at its place. -/
lemma mapM_eq_ok_iff {f : α → Except ε β} {l : List α} {bs : List β} :
    l.mapM f = .ok bs ↔ List.Forall₂ (fun a b => f a = .ok b) l bs := by
  induction l generalizing bs with
  | nil =>
    rw [List.mapM_nil, List.forall₂_nil_left_iff]
    exact ⟨fun h => (Except.ok.inj h).symm, fun h => congrArg Except.ok h.symm⟩
  | cons a l ih =>
    rw [List.mapM_cons]
    constructor
    · intro h
      obtain ⟨b, hb, hrest⟩ := exists_of_bind_eq_ok h
      obtain ⟨cs, hcs, hpure⟩ := exists_of_bind_eq_ok hrest
      cases hpure
      exact .cons hb (ih.mp hcs)
    · intro h
      cases h with
      | cons hb hcs =>
        rw [hb, ok_bind, ih.mpr hcs]
        rfl

/-- A traversal succeeds when each of its elements does; it is the first failure that it raises
otherwise. -/
lemma mapM_succeeds_iff {f : α → Except ε β} {l : List α} :
    (∃ bs, l.mapM f = .ok bs) ↔ ∀ a ∈ l, ∃ b, f a = .ok b := by
  constructor
  · rintro ⟨bs, h⟩
    have hall := mapM_eq_ok_iff.mp h
    clear h
    induction hall with
    | nil => exact fun _ hnot => absurd hnot List.not_mem_nil
    | cons hb _ ih => exact List.forall_mem_cons.mpr ⟨⟨_, hb⟩, ih⟩
  · intro h
    induction l with
    | nil => exact ⟨[], rfl⟩
    | cons a l ih =>
      obtain ⟨b, hb⟩ := h a List.mem_cons_self
      obtain ⟨bs, hbs⟩ := ih fun c hc => h c (List.mem_cons_of_mem a hc)
      refine ⟨b :: bs, ?_⟩
      rw [List.mapM_cons, hb, ok_bind, hbs]
      rfl

lemma mapM_range_ok {n : ℕ} {f : ℕ → Except ε β} {g : Fin n → β} (h : ∀ i : Fin n, f i = .ok (g i)) :
    (List.range n).mapM f = .ok (List.ofFn g) := by
  rw [← List.map_coe_finRange_eq_range, List.mapM_map, List.ofFn_eq_map]
  apply mapM_ok
  intro i _
  exact h i

end Except

section Refines

variable {ε : Type u} {α : Type v} {β : Type w} {ι : Type*}
variable {repr : β → α}

/-- `f` succeeds on every representation, with the representation of the value of `g`.  In particular
it raises nothing there. -/
def Refines (repr : β → α) (f : α → Except ε α) (g : β → β) : Prop :=
  ∀ b, f (repr b) = .ok (repr (g b))

lemma Refines.comp {f f' : α → Except ε α} {g g' : β → β}
    (hf : Refines repr f g) (hf' : Refines repr f' g') :
    Refines repr (fun a => f a >>= f') (g' ∘ g) := by
  intro b
  show (f (repr b) >>= f') = _
  rw [hf b, ok_bind]
  exact hf' (g b)

/-- The composition of the permutations `g i` for the `i` of a list, the first one innermost. -/
def permSeq (g : ι → Equiv.Perm β) : List ι → Equiv.Perm β
  | [] => 1
  | i :: rest => permSeq g rest * g i

lemma permSeq_append (g : ι → Equiv.Perm β) (l l' : List ι) :
    permSeq g (l ++ l') = permSeq g l' * permSeq g l := by
  induction l with
  | nil => simp [permSeq]
  | cons i rest ih => simp [permSeq, ih, mul_assoc]

lemma permSeq_reverse_inv (g : ι → Equiv.Perm β) (l : List ι) :
    permSeq (fun i => (g i)⁻¹) l.reverse = (permSeq g l)⁻¹ := by
  induction l with
  | nil => simp [permSeq]
  | cons i rest ih =>
    rw [List.reverse_cons, permSeq_append, ih]
    simp [permSeq]

/-- The composition applies the steps one after the other, the first of the list first. -/
lemma permSeq_apply (g : ι → Equiv.Perm β) (l : List ι) (b : β) :
    permSeq g l b = l.foldl (fun b i => g i b) b := by
  induction l generalizing b with
  | nil => rfl
  | cons i rest ih =>
    rw [permSeq, Equiv.Perm.mul_apply, ih]
    rfl

/-- A permutation that carries each step of one loop to a step of another carries the loop. -/
lemma permSeq_semiconj {s : Equiv.Perm β} {g g' : ι → Equiv.Perm β}
    (h : ∀ i, SemiconjBy s (g i) (g' i)) (l : List ι) :
    SemiconjBy s (permSeq g l) (permSeq g' l) := by
  induction l with
  | nil => exact SemiconjBy.one_right s
  | cons i rest ih => exact ih.mul_right (h i)

/-- A permutation between the steps of a loop can be taken with the step before or the step after. -/
lemma mul_permSeq (s : Equiv.Perm β) (g : ι → Equiv.Perm β) (l : List ι) :
    s * permSeq (fun i => g i * s) l = permSeq (fun i => s * g i) l * s := by
  induction l with
  | nil => simp [permSeq]
  | cons i rest ih =>
    calc s * (permSeq (fun i => g i * s) rest * (g i * s))
        = (s * permSeq (fun i => g i * s) rest) * (g i * s) := (mul_assoc _ _ _).symm
      _ = permSeq (fun i => s * g i) rest * s * (g i * s) := by rw [ih]
      _ = permSeq (fun i => s * g i) rest * (s * g i) * s := by simp only [mul_assoc]

lemma Refines.foldlM {f : α → ι → Except ε α} {g : ι → Equiv.Perm β} {l : List ι}
    (h : ∀ i ∈ l, Refines repr (fun a => f a i) (g i)) :
    Refines repr (fun a => l.foldlM f a) (permSeq g l) := by
  induction l with
  | nil => intro b; rfl
  | cons i rest ih =>
    intro b
    have hfirst : f (repr b) i = .ok (repr (g i b)) := h i List.mem_cons_self b
    have hrest := ih fun j hj => h j (List.mem_cons_of_mem i hj)
    show (f (repr b) i >>= fun a => rest.foldlM f a) = _
    rw [hfirst]
    exact hrest (g i b)

/-- The loop over the reversed list, with steps that undo those of `g`, undoes the loop. -/
lemma Refines.foldlM_reverse {f : α → ι → Except ε α} {g : ι → Equiv.Perm β} {l : List ι}
    (h : ∀ i ∈ l, Refines repr (fun a => f a i) ((g i)⁻¹ : Equiv.Perm β)) :
    Refines repr (fun a => l.reverse.foldlM f a) ((permSeq g l)⁻¹ : Equiv.Perm β) := by
  rw [← permSeq_reverse_inv]
  exact Refines.foldlM fun i hi => h i (List.mem_reverse.mp hi)

end Refines

end Whuctf
