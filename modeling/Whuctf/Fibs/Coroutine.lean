import Whuctf.Fibs.Generator
import Whuctf.Library.Coroutine

/-!
# The coroutine, resumed by a loop

`Generator` of `fibs.cpp` and the template `magic`, as the range-based `for` of `get` runs them.
The loop visits the values the body yields, in order, and ends with its return (`rangeFor_iff`).

`magic` is modelled for any integral type (`Integral`).  At `size_t` the loop visits the list that
`Generator.lean` takes for the coroutine (`rangeFor_size`), and `get` keeps its last value.

The branches for the indices 0 and 1 yield the start of the Fibonacci sequence.  The third yields
`0` and `1` and goes on from the pair `1, 1`, so that the first value of its loop is the number of
index 3.  The number of index 2 is missing, and there is one value too many (`magic_yields_iff`).
The shift by 2 in `get` makes up for it from argument 4 on.
-/

namespace Whuctf.Fibs

/-! ## The generator

The handle is shared by the generator and its iterators, and at most one of these is in use in a loop.
So it can be passed along as a value, with the suspension point in it. -/

section Generator

/-- `coroutine_handle<promise_type>`: the body of the coroutine, the point it is suspended at, none
at the final one, and `current_value` of its promise. -/
structure Handle (σ T : Type) where
  body : Body σ T
  point : Option σ
  currentValue : Option T

/-- `Generator`: `m_coroutine`, empty after a move, when a loop over it visits nothing. -/
structure Generator (σ T : Type) where
  coroutine : Option (Handle σ T)

/-- `Generator::Iter`, which has the handle of the coroutine and nothing of its own. -/
structure Iter (σ T : Type) where
  coroutine : Option (Handle σ T)

variable {σ T : Type}

/-- `get_return_object` of a coroutine at its initial suspension point. -/
def Generator.start (body : Body σ T) (p : σ) : Generator σ T := ⟨some ⟨body, some p, none⟩⟩

/-- `done`: the coroutine is suspended at its final point. -/
def Handle.done (h : Handle σ T) : Bool := h.point.isNone

/-- `resume`, which is undefined for a coroutine that is done. -/
def Handle.resume (h : Handle σ T) : Option (Handle σ T) := do
  let p ← h.point
  match ← h.body p with
  | .yields value q => some ⟨h.body, some q, some value⟩
  | .returns => some ⟨h.body, none, h.currentValue⟩

/-- `operator++`, which resumes the coroutine. -/
def Iter.next (it : Iter σ T) : Option (Iter σ T) := do
  let h ← it.coroutine
  let h ← h.resume
  some ⟨some h⟩

/-- `operator*`: the value in the promise, undefined before the first one is yielded. -/
def Iter.deref (it : Iter σ T) : Option T := do
  let h ← it.coroutine
  h.currentValue

/-- `operator==` with `default_sentinel`: there is no coroutine, or it is done. -/
def Iter.atEnd (it : Iter σ T) : Bool :=
  match it.coroutine with
  | none => true
  | some h => h.done

/-- `Generator::begin`, which resumes the coroutine once, up to its first value. -/
def Generator.first (g : Generator σ T) : Option (Iter σ T) :=
  match g.coroutine with
  | none => some ⟨none⟩
  | some h => h.resume.map fun h => ⟨some h⟩

/-- The passes of a range-based `for`: the values it visits, as long as the iterator is not at its end.
-/
def visit : ℕ → Iter σ T → Option (List T)
  | 0, _ => none
  | fuel + 1, it =>
      if it.atEnd then some []
      else do
        let value ← it.deref
        let it ← it.next
        let rest ← visit fuel it
        some (value :: rest)

/-- A range-based `for` over a generator, for at most `fuel` passes; undefined where the coroutine is. -/
def rangeFor (fuel : ℕ) (g : Generator σ T) : Option (List T) := do
  let it ← g.first
  visit fuel it

/-- What the loop visits from where it resumes the coroutine at `p`. -/
def visitFrom (body : Body σ T) (fuel : ℕ) (p : σ) (last : Option T) : Option (List T) := do
  let h ← Handle.resume ⟨body, some p, last⟩
  visit fuel ⟨some h⟩

variable {body : Body σ T} {p q : σ} {v : T} {vs : List T} {last : Option T}

lemma rangeFor_start (fuel : ℕ) :
    rangeFor fuel (.start body p) = visitFrom body fuel p none := by
  simp [rangeFor, Generator.first, Generator.start, visitFrom, Option.bind_map]

lemma visitFrom_zero : visitFrom body 0 p last = none := by
  simp [visitFrom, visit]

lemma visitFrom_of_undefined (h : body p = none) (fuel : ℕ) :
    visitFrom body fuel p last = none := by
  simp [visitFrom, Handle.resume, h]

lemma visitFrom_of_returns (h : body p = some .returns) (fuel : ℕ) :
    visitFrom body (fuel + 1) p last = some [] := by
  simp [visitFrom, Handle.resume, h, visit, Iter.atEnd, Handle.done]

/-- The value yielded is visited, and then the coroutine is resumed where it yielded it. -/
lemma visitFrom_of_yields (h : body p = some (.yields v q)) (fuel : ℕ) :
    visitFrom body (fuel + 1) p last =
      (visitFrom body fuel q (some v)).bind fun rest => some (v :: rest) := by
  have hresume : Handle.resume ⟨body, some p, last⟩ = some ⟨body, some q, some v⟩ := by
    simp [Handle.resume, h]
  rw [visitFrom, hresume]
  simp [visitFrom, visit, Iter.atEnd, Handle.done, Iter.deref, Iter.next, Option.bind_assoc]

/-- With a pass for each value and one for the end, the loop visits a whole run. -/
lemma visitFrom_run (h : Yields body p vs) {fuel : ℕ} (hfuel : vs.length < fuel) :
    visitFrom body fuel p last = some vs := by
  obtain ⟨fuel, rfl⟩ : ∃ k, fuel = k + 1 := ⟨fuel - 1, by omega⟩
  induction h generalizing last fuel with
  | returns hstep => exact visitFrom_of_returns hstep fuel
  | yields hstep _ ih =>
      rw [List.length_cons] at hfuel
      obtain ⟨fuel, rfl⟩ : ∃ k, fuel = k + 1 := ⟨fuel - 1, by omega⟩
      rw [visitFrom_of_yields hstep, ih fuel (by omega)]
      rfl

/-- What the loop visits is a run: it can only end where the coroutine has returned. -/
lemma yields_of_visitFrom {fuel : ℕ} (h : visitFrom body fuel p last = some vs) :
    Yields body p vs := by
  induction fuel generalizing p last vs with
  | zero =>
      rw [visitFrom_zero] at h
      cases h
  | succ fuel ih =>
      cases hstep : body p with
      | none =>
          rw [visitFrom_of_undefined hstep] at h
          cases h
      | some progress =>
          cases progress with
          | yields v q =>
              rw [visitFrom_of_yields hstep] at h
              obtain ⟨rest, hrest, hvs⟩ := Option.bind_eq_some_iff.mp h
              cases hvs
              exact .yields hstep (ih hrest)
          | returns =>
              rw [visitFrom_of_returns hstep] at h
              cases h
              exact .returns hstep

/-- **The loop over a generator.**  It visits the values the coroutine yields up to its return. -/
lemma rangeFor_iff : (∃ fuel, rangeFor fuel (.start body p) = some vs) ↔ Yields body p vs := by
  simp only [rangeFor_start]
  constructor
  · rintro ⟨fuel, h⟩
    exact yields_of_visitFrom h
  · intro h
    exact ⟨vs.length + 1, visitFrom_run h (Nat.lt_succ_self _)⟩

end Generator

/-! ## The template

A point of `magic` is its start or one of its `co_yield`s, with the variables that are read behind it.
It has three branches on the index, and only the third has a loop. -/

/-- What `magic` uses of its type parameter: `0` and `1`, the number a value stands for,
`(previous + current) % mod` where it is defined, and `--index`. -/
structure Integral (T : Type) where
  zero : T
  one : T
  value : T → ℤ
  sumMod (previous current mod : T) : Option T
  pred : T → T
  value_zero : value zero = 0
  value_one : value one = 1
  value_pred : ∀ index, 0 < value index → value (pred index) = value index - 1

/-- The points `magic` is suspended at, with the variables that are still read there. -/
inductive Point (T : Type)
  | entry (index mod : T)
  | onlyZero
  | zeroOfTwo
  | oneOfTwo
  | zero (index mod : T)
  | pair (index mod previous current : T)

namespace Integral

variable {T : Type} (t : Integral T)

/-- The body of `magic`: what it does from each point up to the next `co_yield` or the end. -/
def magicBody : Body (Point T) T
  | .entry index mod =>
      if t.value index = 0 then some (.yields t.zero .onlyZero)
      else if t.value index = 1 then some (.yields t.zero .zeroOfTwo)
      else some (.yields t.zero (.zero index mod))
  | .onlyZero => some .returns
  | .zeroOfTwo => some (.yields t.one .oneOfTwo)
  | .oneOfTwo => some .returns
  -- `previous` and `current` are set before the loop is first checked.
  | .zero index mod => some (.yields t.one (.pair index mod t.one t.one))
  | .pair index mod previous current =>
      if 0 < t.value index then do
        let tmp ← t.sumMod previous current mod
        some (.yields tmp (.pair (t.pred index) mod current tmp))
      else some .returns

/-- `magic`, called: a generator whose coroutine has not started yet. -/
def magic (index mod : T) : Generator (Point T) T := .start t.magicBody (.entry index mod)

/-- A loop over `magic(index, mod)` visits one value more than `index`, the Fibonacci numbers from
the zeroth on, reduced. -/
def YieldsFibonacci (index mod : T) : Prop :=
  ∃ fuel vs, rangeFor fuel (t.magic index mod) = some vs ∧
    (vs.length : ℤ) = t.value index + 1 ∧
    ∀ k (h : k < vs.length), t.value vs[k] = (Nat.fib k : ℤ) % t.value mod

variable {t} {index mod previous current tmp : T} {vs : List T}

lemma body_pair_of_nonpos (h : ¬0 < t.value index) :
    t.magicBody (.pair index mod previous current) = some .returns := if_neg h

lemma body_pair_of_pos (h : 0 < t.value index) (hsum : t.sumMod previous current mod = some tmp) :
    t.magicBody (.pair index mod previous current) =
      some (.yields tmp (.pair (t.pred index) mod current tmp)) := by
  simp [magicBody, h, hsum]

lemma body_pair_of_undefined (h : 0 < t.value index)
    (hsum : t.sumMod previous current mod = none) :
    t.magicBody (.pair index mod previous current) = none := by
  simp [magicBody, h, hsum]

/-- The loop yields one value a turn, and takes as many turns as `index` says. -/
lemma length_of_pair {n : ℕ} (hindex : t.value index = n)
    (h : Yields t.magicBody (.pair index mod previous current) vs) : vs.length = n := by
  induction n generalizing index previous current vs with
  | zero =>
      have hleft : ¬0 < t.value index := by omega
      rw [yields_iff_of_returns (body_pair_of_nonpos hleft)] at h
      rw [h, List.length_nil]
  | succ n ih =>
      have hpos : 0 < t.value index := by omega
      have hpred : t.value (t.pred index) = n := by
        rw [t.value_pred index hpos]
        omega
      cases hsum : t.sumMod previous current mod with
      | none => exact absurd h (not_yields_of_undefined (body_pair_of_undefined hpos hsum))
      | some tmp =>
          rw [yields_iff_of_yields (body_pair_of_pos hpos hsum)] at h
          obtain ⟨rest, rfl, hrest⟩ := h
          rw [List.length_cons, ih hpred hrest]

/-- The first value of the branch with the loop, which is zero as in the other branches. -/
lemma body_entry_of_loop (h0 : t.value index ≠ 0) (h1 : t.value index ≠ 1) :
    t.magicBody (.entry index mod) = some (.yields t.zero (.zero index mod)) := by
  rw [magicBody, if_neg h0, if_neg h1]

/-- From index 2 on, the two values before the loop come on top of one value a turn. -/
lemma length_of_entry {n : ℕ} (hindex : t.value index = n) (hn : 2 ≤ n)
    (h : Yields t.magicBody (.entry index mod) vs) : vs.length = n + 2 := by
  rw [yields_iff_of_yields (body_entry_of_loop (by omega) (by omega))] at h
  obtain ⟨_, rfl, h⟩ := h
  rw [yields_iff_of_yields rfl] at h
  obtain ⟨rest, rfl, h⟩ := h
  rw [List.length_cons, List.length_cons, length_of_pair hindex h]

/-- The values of the two branches without a loop: for index zero there is one. -/
lemma yields_of_zero (hindex : t.value index = 0) :
    Yields t.magicBody (.entry index mod) [t.zero] :=
  .yields (if_pos hindex) (.returns rfl)

lemma yields_of_one (hindex : t.value index = 1) :
    Yields t.magicBody (.entry index mod) [t.zero, t.one] := by
  have hfirst : t.magicBody (.entry index mod) = some (.yields t.zero .zeroOfTwo) := by
    rw [magicBody, if_neg (by omega), if_pos hindex]
  exact .yields hfirst (.yields rfl (.returns rfl))

end Integral

/-! ## `size_t`

The type parameter is instantiated as in `get`, where values wrap at 64 bits and are never negative.
The modulus is below half of that, so the sums that are reduced do not wrap. -/

open WordOps

/-- `size_t` as the parameter of `magic`: arithmetic wraps around, and a modulus of zero is undefined. -/
def size : Integral Size where
  zero := 0#64
  one := 1#64
  value v := v.toNat
  sumMod previous current mod :=
    if mod = 0#64 then none else some ((previous + current) % mod)
  pred index := index - 1#64
  value_zero := rfl
  value_one := rfl
  value_pred index h := by
    have hle : 1#64 ≤ index := by
      rw [BitVec.le_def]
      exact_mod_cast h
    rw [BitVec.toNat_sub_of_le hle]
    exact Nat.cast_pred (by exact_mod_cast h)

section Size

variable {index mod : Size}

/-- The loop of the coroutine yields the list of `magicLoop`, one value a turn. -/
lemma size_yields_loop (hmod : mod ≠ 0#64) {n : ℕ} (hindex : index.toNat = n)
    (previous current : Size) :
    Yields size.magicBody (.pair index mod previous current)
      (magicLoop wrapping mod n previous current) := by
  induction n generalizing index previous current with
  | zero =>
      have hleft : ¬0 < size.value index := by simp [size, hindex]
      exact .returns (Integral.body_pair_of_nonpos hleft)
  | succ n ih =>
      have hpos : 0 < size.value index := by simp [size, hindex]
      have hpred : (size.pred index).toNat = n := by
        have hvalue := size.value_pred index hpos
        simp only [size, hindex] at hvalue ⊢
        omega
      have hsum : size.sumMod previous current mod = some ((previous + current) % mod) :=
        if_neg hmod
      exact .yields (Integral.body_pair_of_pos hpos hsum) (ih hpred _ _)

/-- At `size_t` the coroutine yields the list `magic`, in each of its three branches. -/
lemma size_yields (hmod : mod ≠ 0#64) (index : Size) :
    Yields size.magicBody (.entry index mod) (magic wrapping index mod) := by
  have hzero : size.value index = 0 ↔ index = 0#64 := by
    simp [size, BitVec.toNat_eq]
  have hone : size.value index = 1 ↔ index = 1#64 := by
    simp [size, BitVec.toNat_eq]
  rw [magic]
  split
  · rename_i h0
    exact Integral.yields_of_zero (hzero.mpr h0)
  split
  · rename_i h1
    exact Integral.yields_of_one (hone.mpr h1)
  rename_i h0 h1
  have hfirst : size.magicBody (.entry index mod) = some (.yields 0#64 (.zero index mod)) :=
    Integral.body_entry_of_loop (hzero.not.mpr h0) (hone.not.mpr h1)
  exact .yields hfirst (.yields rfl (size_yields_loop hmod rfl _ _))

/-- **The coroutine at `size_t`.**  A loop over it visits the list `magic`. -/
theorem rangeFor_size (hmod : mod ≠ 0#64) (index : Size) {vs : List Size} :
    (∃ fuel, rangeFor fuel (size.magic index mod) = some vs) ↔ vs = magic wrapping index mod := by
  rw [Integral.magic, rangeFor_iff]
  constructor
  · exact fun h => h.unique (size_yields hmod index)
  · rintro rfl
    exact size_yields hmod index

/-- `get` keeps the last value its loop visits, and the loop visits what the coroutine yields, one pass
for each. -/
theorem get_eq_getLast {x : Size} {fuel : ℕ} {vs : List Size}
    (h : rangeFor fuel (size.magic (x - 2#64) modulus) = some vs) :
    get wrapping x = vs.getLast? := by
  rw [(rangeFor_size (by decide) _).mp ⟨fuel, h⟩]
  rfl

/-- **The seam.**  From index 2 on, with no sum outside 64 bits, the loop visits the Fibonacci
numbers from the zeroth to two past the index, all but the second. -/
theorem rangeFor_size_fib (hindex : 2 ≤ index.toNat) (hmod : 2 ≤ mod.toNat)
    (hfit : 2 * mod.toNat ≤ 2 ^ 64) :
    ∃ fuel, rangeFor fuel (size.magic index mod) =
      some (([0, 1] ++ List.range' 3 index.toNat).map fun i => residue mod (Nat.fib i)) := by
  have hne : mod ≠ 0#64 := by
    rintro rfl
    simp at hmod
  refine (rangeFor_size hne index).mpr ?_
  rw [magic_eq wrapping_exact hindex hmod hfit, List.map_append, List.map_cons, List.map_cons,
    List.map_nil, Nat.fib_zero, Nat.fib_one, residue_zero, residue_one hmod]
  rfl

end Size

/-! ## Where the coroutine is the Fibonacci sequence -/

section Seam

variable {T : Type} (t : Integral T)

/-- **The Fibonacci sequence.**  For an index that is not negative and a modulus of at least 2, the
coroutine yields one value more than its index and these are the Fibonacci numbers in order,
reduced, exactly when the index is 0 or 1: the loop starts past the pair it should start from, and
yields one value too many. -/
theorem magic_yields_iff (index mod : T) (hindex : 0 ≤ t.value index) (hmod : 2 ≤ t.value mod) :
    t.YieldsFibonacci index mod ↔ t.value index ≤ 1 := by
  constructor
  · rintro ⟨fuel, vs, hloop, hlength, -⟩
    obtain ⟨n, hn⟩ := Int.eq_ofNat_of_zero_le hindex
    have hrun : Yields t.magicBody (.entry index mod) vs := rangeFor_iff.mp ⟨fuel, hloop⟩
    by_contra hlarge
    have hmore := Integral.length_of_entry hn (by omega) hrun
    omega
  · intro hle
    obtain hzero | hone : t.value index = 0 ∨ t.value index = 1 := by omega
    · have hrun : Yields t.magicBody (.entry index mod) [t.zero] := Integral.yields_of_zero hzero
      obtain ⟨fuel, hloop⟩ := rangeFor_iff.mpr hrun
      refine ⟨fuel, _, hloop, by simp [hzero], fun k hk => ?_⟩
      obtain rfl : k = 0 := by simpa using hk
      simp [t.value_zero]
    · have hrun : Yields t.magicBody (.entry index mod) [t.zero, t.one] :=
        Integral.yields_of_one hone
      obtain ⟨fuel, hloop⟩ := rangeFor_iff.mpr hrun
      refine ⟨fuel, _, hloop, by simp [hone], fun k hk => ?_⟩
      obtain rfl | rfl : k = 0 ∨ k = 1 := by
        rw [List.length_cons, List.length_singleton] at hk
        omega
      · simp [t.value_zero]
      · simp [t.value_one, Int.emod_eq_of_lt (by omega : (0 : ℤ) ≤ 1) (by omega : 1 < t.value mod)]

/-- Index 1, with the modulus of `get`: two values, neither of them reduced. -/
theorem magic_yields_iff_one : size.YieldsFibonacci 1#64 modulus :=
  (magic_yields_iff size 1#64 modulus (by decide) (by decide)).mpr (by decide)

/-- Index 2, which `get(4)` runs with: four values, and the second Fibonacci number is not among
them. -/
theorem magic_yields_four :
    rangeFor 5 (size.magic 2#64 modulus) = some [0#64, 1#64, 2#64, 3#64] ∧
      ¬size.YieldsFibonacci 2#64 modulus := by
  refine ⟨by decide, ?_⟩
  rintro ⟨fuel, vs, hloop, hlength, -⟩
  rw [(rangeFor_size (by decide) _).mp ⟨fuel, hloop⟩] at hlength
  revert hlength
  decide

end Seam

end Whuctf.Fibs
