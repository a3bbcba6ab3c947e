import Whuctf.SubjectSystem.Courses
import Whuctf.SubjectSystem.Extraction

/-!
# The injection through `course.php`

`course.php` puts its parameter behind `ORDER BY`, and `exp.py` passes an expression there that is a
constant for every row when the guess is right, and the name of the row when it is wrong.  The first row
of the response is taken for the answer: the guess is right when it is that with the identifier `1`.

## The database

The database is no part of the repository, so what `ORDER BY` does is a parameter.  That the rows come
sorted is its documented behaviour.  It leaves the order of rows with equal values open, and the exploit
is about just this order: a right guess makes the values of all rows equal.  What the script relies on
is that such rows are returned as the table lists them, and `Orders` names this as its second field.

## The result

A right guess then leaves the rows as they are, so row `1` comes first if it is the first of the table.
A wrong one sorts by name.  The answers are those of the database exactly when another row comes before
row `1` by name; otherwise every guess looks right and nothing is extracted (`exploit_extracts_iff`).
-/

namespace Whuctf.SubjectSystem

open Bisection

/-! ## The program -/

section Query

variable (orderBy : (Course → List Char) → List Course → List Course)

/-- `if(ascii(substr((sql),pos,1))>mid, 1, name)`, the expression that `exp.py` puts behind `ORDER BY`, for
a row.  Beside a name the number is a text. -/
def payload (secret : List ℕ) (pos mid : ℕ) (course : Course) : List Char :=
  if database secret pos mid then "1".toList else course.name

/-- `res.json()[0]["id"] == "1"`, for the rows of a table that is not empty, where `orderBy` is what
`SELECT * FROM courses ORDER BY ...` returns for the value of the expression in each row. -/
def answer (courses : List Course) (secret : List ℕ) (pos mid : ℕ) : Bool :=
  match orderBy (payload secret pos mid) courses with
  | course :: _ => course.id = "1".toList
  | [] => false

end Query

/-! ## Sorted tables

What the exploit needs of a query with `ORDER BY`: its rows are sorted, and those of one value are the
rows of the table with this value, in the order of the table.  The second part says which row is the
first among equals, so it decides where the whole table has one value. -/

section Sorted

variable {α β : Type}

/-- A collation orders all texts: it is transitive, and of two texts one comes before the other. -/
structure IsCollation (collation : α → α → Bool) : Prop where
  trans : ∀ a b c, collation a b → collation b c → collation a c
  total : ∀ a b, collation a b || collation b a

/-- Two values that come before each other. -/
def Ties (collation : α → α → Bool) (a b : α) : Bool := collation a b && collation b a

/-- A sort by the values of an expression: what it returns is sorted, and the rows that tie with a value
are those of the table, in its order. -/
structure Orders (collation : α → α → Bool) (orderBy : (β → α) → List β → List β) : Prop where
  sorted : ∀ value rows, (orderBy value rows).Pairwise fun a b => collation (value a) (value b)
  ties : ∀ value rows a, (orderBy value rows).filter (fun b => Ties collation a (value b)) =
    rows.filter fun b => Ties collation a (value b)

variable {collation : α → α → Bool} {orderBy : (β → α) → List β → List β}

lemma IsCollation.refl (h : IsCollation collation) (a : α) : collation a a = true := by
  have hself := h.total a a
  rwa [Bool.or_self] at hself

lemma IsCollation.ties_self (h : IsCollation collation) (a : α) : Ties collation a a = true := by
  rw [Ties, h.refl, Bool.and_self]

/-- No row is lost and none appears, since the rows that tie with a row are the same before and behind
the sort. -/
lemma Orders.mem_iff (ho : Orders collation orderBy) (h : IsCollation collation) {value : β → α}
    {rows : List β} {a : β} : a ∈ orderBy value rows ↔ a ∈ rows := by
  have hfilter : ∀ l : List β, a ∈ l ↔ a ∈ l.filter fun b => Ties collation (value a) (value b) := by
    intro l
    rw [List.mem_filter, and_iff_left (h.ties_self _)]
  rw [hfilter, ho.ties, ← hfilter]

/-- The first row stays first when no other comes before it. -/
lemma Orders.head_iff (ho : Orders collation orderBy) (h : IsCollation collation) {value : β → α}
    {first : β} {rest : List β} :
    (orderBy value (first :: rest)).head? = some first ↔
      ∀ a ∈ rest, collation (value first) (value a) := by
  have hmem : ∀ a, a ∈ orderBy value (first :: rest) ↔ a ∈ first :: rest := fun a => ho.mem_iff h
  have hsorted := ho.sorted value (first :: rest)
  have hties := ho.ties value (first :: rest) (value first)
  have hself : Ties collation (value first) (value first) = true := h.ties_self _
  rw [List.filter_cons, if_pos hself] at hties
  cases hrows : orderBy value (first :: rest) with
  | nil =>
      rw [hrows] at hmem
      exact absurd ((hmem first).mpr List.mem_cons_self) List.not_mem_nil
  | cons head tail =>
      rw [hrows] at hmem hsorted hties
      rw [List.head?_cons, Option.some.injEq]
      have hbefore : ∀ a ∈ head :: tail, collation (value head) (value a) := by
        intro a ha
        rcases List.mem_cons.mp ha with rfl | ha
        · exact h.refl _
        · exact (List.pairwise_cons.mp hsorted).1 a ha
      constructor
      · rintro rfl a ha
        exact hbefore a ((hmem a).mpr (List.mem_cons_of_mem _ ha))
      · intro hall
        -- the head ties with the first row, which is the first of the table that does
        have hfirst : collation (value first) (value head) := by
          rcases List.mem_cons.mp ((hmem head).mp List.mem_cons_self) with rfl | hhead
          · exact h.refl _
          · exact hall head hhead
        have htie : Ties collation (value first) (value head) = true := by
          rw [Ties, hfirst, hbefore first ((hmem first).mpr List.mem_cons_self), Bool.and_self]
        rw [List.filter_cons, if_pos htie] at hties
        exact (List.cons.inj hties).1

/-- Rows are compared by their values, which is an order of the rows in which different rows may tie. -/
lemma IsCollation.comap (h : IsCollation collation) (value : β → α) :
    IsCollation fun a b : β => collation (value a) (value b) where
  trans _ _ _ := h.trans _ _ _
  total _ _ := h.total _ _

/-- A stable sort is one that leaves the rows of one value in the order of the table. -/
lemma orders_mergeSort (h : IsCollation collation) :
    Orders collation fun (value : β → α) rows =>
      rows.mergeSort fun a b => collation (value a) (value b) where
  sorted value rows :=
    List.pairwise_mergeSort (h.comap value).trans (h.comap value).total rows
  ties value rows a := by
    have htied : (rows.filter fun b => Ties collation a (value b)).Pairwise
        fun b c => collation (value b) (value c) = true := by
      apply List.pairwise_of_forall_mem_list
      intro b hb c hc
      rw [List.mem_filter, Ties, Bool.and_eq_true] at hb hc
      exact h.trans _ _ _ hb.2.2 hc.2.1
    -- the rows that tie are sorted, so they keep their order
    have hsublist := List.sublist_mergeSort (h.comap value).trans (h.comap value).total
      htied List.filter_sublist
    have hfilter := hsublist.filter fun b => Ties collation a (value b)
    simp only [List.filter_filter, Bool.and_self] at hfilter
    have hperm := (List.mergeSort_perm rows fun b c => collation (value b) (value c)).filter
      fun b => Ties collation a (value b)
    exact (hfilter.eq_of_length hperm.length_eq.symm).symm

end Sorted

/-! ## The answers

The values of the rows are all one number, or the names.  In the first case the rows come in the order
of the table, in the second the first one by name comes first. -/

section Answers

variable {collation : List Char → List Char → Bool}
  {orderBy : (Course → List Char) → List Course → List Course} {first : Course} {rest : List Course}

/-- The first row answers for the whole table: the identifier `1` is that of the first row alone. -/
lemma answer_eq_head (h : IsCollation collation) (ho : Orders collation orderBy)
    (hfirst : first.id = "1".toList) (hrest : ∀ course ∈ rest, course.id ≠ "1".toList)
    (secret : List ℕ) (pos mid : ℕ) :
    answer orderBy (first :: rest) secret pos mid = true ↔
      (orderBy (payload secret pos mid) (first :: rest)).head? = some first := by
  have hmem : ∀ course ∈ orderBy (payload secret pos mid) (first :: rest),
      course ∈ first :: rest := fun course => (ho.mem_iff h).mp
  rw [answer]
  cases hrows : orderBy (payload secret pos mid) (first :: rest) with
  | nil => exact iff_of_false nofun nofun
  | cons course rows =>
      simp only [decide_eq_true_iff, List.head?_cons, Option.some.injEq]
      constructor
      · intro hid
        rw [hrows] at hmem
        rcases List.mem_cons.mp (hmem course List.mem_cons_self) with heq | hcourse
        · exact heq
        · exact absurd hid (hrest course hcourse)
      · rintro rfl
        exact hfirst

/-- The answer to a guess: it is right, or the first row has the first name. -/
lemma answer_iff (h : IsCollation collation) (ho : Orders collation orderBy)
    (hfirst : first.id = "1".toList) (hrest : ∀ course ∈ rest, course.id ≠ "1".toList)
    (secret : List ℕ) (pos mid : ℕ) :
    answer orderBy (first :: rest) secret pos mid = true ↔
      database secret pos mid = true ∨ ∀ course ∈ rest, collation first.name course.name := by
  rw [answer_eq_head h ho hfirst hrest, ho.head_iff h]
  by_cases hright : database secret pos mid = true
  · refine iff_of_true ?_ (.inl hright)
    intro course _
    rw [payload, payload, if_pos hright, if_pos hright]
    exact h.refl _
  · rw [or_iff_right hright]
    simp only [payload, if_neg hright]

end Answers

/-! ## What is extracted -/

section Extracts

variable {collation : List Char → List Char → Bool}
  {orderBy : (Course → List Char) → List Course → List Course} {first : Course} {rest : List Course}

/-- Where every guess looks right, the first pass finds the upper end of the interval. -/
lemma extraction_const_true {fuel : ℕ} (hfuel : 2 ≤ fuel) :
    extraction (fun _ _ => true) fuel (-1) [] = some [] := by
  obtain ⟨fuel, rfl⟩ : ∃ k, fuel = k + 2 := ⟨fuel - 2, by omega⟩
  have hright : ∀ mid, 32 ≤ mid → mid < 128 → (true = true ↔ mid < 128) :=
    fun _ _ hlt => iff_of_true rfl hlt
  have hbisect : bisect (fun _ => true) 32 128 = 128 := bisect_eq (by decide) hright
  have hextend : extend (fun _ _ => true) [] = [] := by
    rw [extend, hbisect]
    rfl
  rw [extraction, if_pos (by decide), hextend, extraction, if_neg (by decide)]

/-- **The exploit.**  Where rows of equal value are returned in the order of the table, the readable prefix
of a secret is extracted exactly when another row comes before the row `1` by name, or there is nothing to
extract. -/
theorem exploit_extracts_iff (h : IsCollation collation) (ho : Orders collation orderBy)
    (hfirst : first.id = "1".toList) (hrest : ∀ course ∈ rest, course.id ≠ "1".toList)
    (secret : List ℕ) {fuel : ℕ} (hfuel : secret.length + 2 ≤ fuel) :
    extraction (answer orderBy (first :: rest) secret) fuel (-1) [] =
        some ((secret.takeWhile Readable).map Char.ofNat) ↔
      (∃ course ∈ rest, ¬collation first.name course.name) ∨ secret.takeWhile Readable = [] := by
  have hdatabase : extraction (database secret) fuel (-1) [] =
      some ((secret.takeWhile Readable).map Char.ofNat) :=
    extraction_database [] secret (by decide) hfuel
  by_cases hother : ∃ course ∈ rest, ¬collation first.name course.name
  · have hanswer : answer orderBy (first :: rest) secret = database secret := by
      funext pos mid
      have hiff := answer_iff h ho hfirst hrest secret pos mid
      have hnot : ¬∀ course ∈ rest, collation first.name course.name := by
        obtain ⟨course, hcourse, hless⟩ := hother
        exact fun hall => hless (hall course hcourse)
      rw [or_iff_left hnot] at hiff
      exact Bool.eq_iff_iff.mpr hiff
    rw [hanswer]
    exact iff_of_true hdatabase (.inl hother)
  · have hall : ∀ course ∈ rest, collation first.name course.name := by
      intro course hcourse
      by_contra hless
      exact hother ⟨course, hcourse, hless⟩
    have hanswer : answer orderBy (first :: rest) secret = fun _ _ => true := by
      funext pos mid
      exact (answer_iff h ho hfirst hrest secret pos mid).mpr (.inr hall)
    rw [hanswer, extraction_const_true (by omega), or_iff_right hother, Option.some.injEq, eq_comm,
      List.map_eq_nil_iff]

/-- Texts compared by the codes of their characters, the first difference deciding. -/
def byCodes : List Char → List Char → Bool
  | [], _ => true
  | _ :: _, [] => false
  | c :: text, c' :: text' => c.toNat < c'.toNat || c.toNat = c'.toNat && byCodes text text'

lemma byCodes_cons (c c' : Char) (text text' : List Char) :
    byCodes (c :: text) (c' :: text') = true ↔
      c.toNat < c'.toNat ∨ c.toNat = c'.toNat ∧ byCodes text text' = true := by
  simp [byCodes]

lemma isCollation_codes : IsCollation byCodes where
  trans a b c hab hbc := by
    induction a generalizing b c with
    | nil => rfl
    | cons x a ih =>
      cases b with
      | nil => cases hab
      | cons y b =>
        cases c with
        | nil => cases hbc
        | cons z c =>
          rw [byCodes_cons] at *
          rcases hab with hlt | ⟨heq, hab⟩ <;> rcases hbc with hlt' | ⟨heq', hbc⟩
          · exact .inl (hlt.trans hlt')
          · exact .inl (heq' ▸ hlt)
          · exact .inl (heq ▸ hlt')
          · exact .inr ⟨heq.trans heq', ih b c hab hbc⟩
  total a b := by
    rw [Bool.or_eq_true]
    induction a generalizing b with
    | nil => exact .inl rfl
    | cons x a ih =>
      cases b with
      | nil => exact .inr rfl
      | cons y b =>
        rw [byCodes_cons, byCodes_cons]
        rcases Nat.lt_trichotomy x.toNat y.toNat with hlt | heq | hlt
        · exact .inl (.inl hlt)
        · exact (ih b).imp (fun h => .inr ⟨heq, h⟩) fun h => .inr ⟨heq.symm, h⟩
        · exact .inr (.inl hlt)

/-- Two rows of `db.sql`, the first and the first by name. -/
theorem exploit_extracts_iff_courses :
    let first : Course := ⟨"1".toList, "计算机网络".toList, "计算机网络基础课程".toList, "3".toList,
      "计算机专业".toList⟩
    let other : Course := ⟨"14".toList, "人工智能".toList, "人工智能基础与应用".toList, "4".toList,
      "计算机专业".toList⟩
    let orderBy : (Course → List Char) → List Course → List Course := fun value rows =>
      rows.mergeSort fun a b => byCodes (value a) (value b)
    extraction (answer orderBy [first, other] [78, 79]) 4 (-1) [] =
        some (([78, 79].takeWhile Readable).map Char.ofNat) ↔
      (∃ course ∈ [other], ¬byCodes first.name course.name) ∨
        [78, 79].takeWhile Readable = [] := by
  intro first other orderBy
  refine exploit_extracts_iff isCollation_codes (orders_mergeSort isCollation_codes) rfl ?_ [78, 79] (by decide)
  intro course hcourse
  rw [List.mem_singleton.mp hcourse]
  decide

end Extracts

end Whuctf.SubjectSystem
