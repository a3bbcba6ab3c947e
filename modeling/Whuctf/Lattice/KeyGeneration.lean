import Whuctf.Library.Python
import Whuctf.Library.Refinement
import Whuctf.Library.SubsetSum

/-!
# Key generation of the lattice challenge

`genKey` of `task.py` draws a superincreasing private sequence, a modulus above its last element and a
multiplier coprime to the modulus, and publishes the masked sequence.

A run is given by the values that its calls of `randint` return, in order.  A list of values may stop
short of a whole run, or hold a value outside the range it is drawn from; then it is not the list of
a run.  No range that a run draws from is empty: the sum of the private weights so far stays below the
power of four that bounds the next of them (`ensures_extendPrivKey`).  In the other direction all values
in the ranges are those of a run that returns (`genKey_append`).

`gcd` and `invert` are those of `gmpy2`, of which the documented behaviour is assumed.
-/

namespace Whuctf.Lattice

open Draws Python SubsetSum

/-- The functions of `gmpy2` that the challenge calls, with what it relies on. -/
structure Gmpy2 where
  gcd : ℕ → ℕ → ℕ
  invert : ℕ → ℕ → Except PyError ℕ
  gcd_eq : ∀ a b, gcd a b = Nat.gcd a b
  invert_ok : ∀ {a m}, 1 < m → Nat.gcd a m = 1 → ∃ s, invert a m = .ok s ∧ a * s % m = 1

/-- What `genKey` returns: the private weights, the modulus, the multiplier, and the public weights. -/
structure Key where
  privKey : List ℕ
  q : ℕ
  r : ℕ
  pubKey : List ℕ
  deriving DecidableEq, Repr

/-- One pass of the loop that extends `_privKey`, whose sum is `s`. -/
def extendPrivKey (n : ℕ) (state : List ℕ × ℕ) (i : ℕ) : Run PyError (List ℕ × ℕ) := do
  let value ← randint (state.2 + 1) (4 ^ (n + i))
  let privKey := state.1 ++ [value]
  return (privKey, state.2 + (← raising (getItem privKey i)))

/-- The loop that redraws `_r` until it is coprime to `_q`. -/
def redrawR (g : Gmpy2) (q r : ℕ) (draws : List ℕ) :
    Except (Stop PyError) (ℕ × List ℕ) :=
  if g.gcd r q = 1 then .ok (r, draws)
  else match _h : randint 1 q draws with
    | .error e => .error e
    | .ok (r, rest) => redrawR g q r rest
termination_by draws.length
decreasing_by
  obtain ⟨_, _, rfl⟩ := randint_eq_ok _h
  simp

/-- `genKey`: a first private weight and those of the loop, the modulus, the multiplier until it is
coprime to it, and the masked weights. -/
def genKey (g : Gmpy2) (n : ℕ) : Run PyError Key := do
  let first ← randint 1 (4 ^ n)
  let (privKey, _) ← (List.range' 1 (n - 1)).foldlM (extendPrivKey n) ([first], first)
  let last ← raising (getItem privKey (n - 1))
  let q ← randint (last + 1) (2 * last)
  let r ← randint 1 q
  let r ← redrawR g q r
  return { privKey, q, r, pubKey := privKey.map fun w => r * w % q }

/-! ## What a run returns

The state of the loop is the weights so far and their sum.  `Extending` is what makes the sequence
superincreasing, and `Bounded` what keeps the ranges of the draws from being empty. -/

/-- The state of the loop that extends `_privKey` before pass `i`. -/
structure Extending (i : ℕ) (state : List ℕ × ℕ) : Prop where
  length : state.1.length = i
  sum : state.2 = state.1.sum
  superincreasing : Superincreasing state.1

/-- The sizes in that state.  The sum stays below the power of four that bounds the next draw. -/
structure Bounded (n i : ℕ) (state : List ℕ × ℕ) : Prop where
  sum_lt : state.2 < 4 ^ (n + i)
  le_pow : ∀ j (h : j < state.1.length), state.1.get ⟨j, h⟩ ≤ 4 ^ (n + j)

/-- One pass draws from a range that is not empty, and keeps the invariants. -/
lemma ensures_extendPrivKey {n i : ℕ} {state : List ℕ × ℕ}
    (h : Extending i state ∧ Bounded n i state) :
    Ensures (extendPrivKey n state i) fun state' =>
      Extending (i + 1) state' ∧ Bounded n (i + 1) state' := by
  obtain ⟨hstate, hbounded⟩ := h
  have hsum := hbounded.sum_lt
  have hpow : 4 ^ (n + (i + 1)) = 4 * 4 ^ (n + i) := by ring
  apply (ensures_randint hsum).bind
  rintro value ⟨hlow, hhigh⟩
  have hindex : getItem (state.1 ++ [value]) (i : ℕ) = .ok value := by
    rw [getItem_ofNat (by simp [hstate.length])]
    simp [← hstate.length]
  apply (ensures_raising hindex).bind
  rintro _ rfl
  apply ensures_pure
  constructor
  · exact
      { length := by simp [hstate.length]
        sum := by simp [hstate.sum]
        superincreasing := by
          apply superincreasing_concat.mpr
          exact ⟨hstate.superincreasing, by rw [← hstate.sum]; omega⟩ }
  · exact
      { sum_lt := by
          show state.2 + _ < _
          omega
        le_pow := by
          intro j hj
          have hj' : j < state.1.length + 1 := by simpa using hj
          rw [List.get_eq_getElem]
          by_cases hlast : j < state.1.length
          · rw [List.getElem_append_left hlast]
            exact hbounded.le_pow j hlast
          · obtain rfl : j = i := by
              have hlength := hstate.length
              omega
            rwa [List.getElem_concat_length hstate.length.symm] }

lemma ensures_redrawR {g : Gmpy2} {q : ℕ} (hq : 1 ≤ q) (r : ℕ) :
    Ensures (redrawR g q r) fun r' => Nat.gcd r' q = 1 := by
  intro draws
  fun_induction redrawR g q r draws with
  | case1 r draws hgcd =>
    rw [g.gcd_eq] at hgcd
    exact ensures_pure (Q := fun r' => Nat.gcd r' q = 1) hgcd draws
  | case2 r draws hgcd e hdraw =>
    constructor
    · intro e' heq
      exact (ensures_randint hq draws).1 e' (hdraw.trans heq)
    · intro r' rest heq
      cases heq
  | case3 r draws hgcd value mid hdraw ih => exact ih

/-- What every key that `genKey` returns satisfies: the relations that decryption rests on. -/
structure Key.Valid (n : ℕ) (key : Key) : Prop where
  length : key.privKey.length = n
  superincreasing : Superincreasing key.privKey
  last_lt : ∀ last, getItem key.privKey (n - 1) = .ok last → last < key.q
  one_lt : 1 < key.q
  coprime : Nat.gcd key.r key.q = 1
  pubKey : key.pubKey = key.privKey.map fun w => key.r * w % key.q

/-- The private sequence before the loop: one weight, which is its own sum. -/
lemma extending_start {n first : ℕ} (hpos : 1 ≤ first) (hle : first ≤ 4 ^ n) :
    Extending 1 ([first], first) ∧ Bounded n 1 ([first], first) := by
  constructor
  · exact
      { length := rfl
        sum := by simp
        superincreasing := superincreasing_concat.mpr ⟨superincreasing_nil, by simp; omega⟩ }
  · exact
      { sum_lt := by
          have hpow : 4 ^ (n + 1) = 4 * 4 ^ n := by ring
          show first < _
          omega
        le_pow := by
          intro j hj
          obtain rfl : j = 0 := by simpa using hj
          exact hle }

/-- No draw of `genKey` is from an empty range, and its keys are valid and of bounded size. -/
lemma ensures_genKey (g : Gmpy2) {n : ℕ} (hn : 1 ≤ n) :
    Ensures (genKey g n) fun key => key.Valid n ∧
      ∀ i (h : i < key.privKey.length), key.privKey.get ⟨i, h⟩ ≤ 4 ^ (n + i) := by
  apply (ensures_randint (Nat.one_le_pow n 4 (by omega))).bind
  rintro first ⟨hfirst, hfirst'⟩
  have hstart := extending_start hfirst hfirst'
  apply (ensures_foldlM (fun _ _ => ensures_extendPrivKey) (n - 1) hstart).bind
  rintro ⟨privKey, s⟩ ⟨hend, hbounded⟩
  have hlength : privKey.length = n := by
    have hl := hend.length
    simp only at hl
    omega
  have hlast : getItem privKey ((n : ℤ) - 1) = .ok privKey[n - 1] := by
    rw [← Nat.cast_one, ← Nat.cast_sub hn]
    exact getItem_ofNat (by omega)
  have hpos : 0 < privKey[n - 1] :=
    (Nat.zero_le _).trans_lt (hend.superincreasing (n - 1) (by simp only; omega))
  apply (ensures_raising hlast).bind
  rintro last rfl
  apply (ensures_randint (by omega)).bind
  rintro q ⟨hq, -⟩
  apply (ensures_randint (by omega)).bind
  rintro r₀ -
  apply (ensures_redrawR (by omega) r₀).bind
  intro r hr
  apply ensures_pure
  refine ⟨?_, hbounded.le_pow⟩
  exact
    { length := hlength
      superincreasing := hend.superincreasing
      last_lt := by
        intro w hw
        rw [hlast] at hw
        obtain rfl := Except.ok.inj hw
        exact hq
      one_lt := by
        show 1 < q
        omega
      coprime := hr
      pubKey := rfl }

theorem genKey_valid {g : Gmpy2} {n : ℕ} (hn : 1 ≤ n) {draws rest : List ℕ} {key : Key}
    (h : genKey g n draws = .ok (key, rest)) : key.Valid n :=
  ((ensures_genKey g hn draws).2 key rest h).1

/-- `gmpy2` with inverses found by search, and with the greatest common divisor of the library. -/
def searchGmpy2 : Gmpy2 where
  gcd := Nat.gcd
  invert := searchInverse .zeroDivisionError
  gcd_eq _ _ := rfl
  invert_ok := by
    intro a m hm hcoprime
    obtain ⟨s, hs, _, hinverse⟩ := searchInverse_ok .zeroDivisionError hm hcoprime
    exact ⟨s, hs, hinverse⟩

/-- A run for two bits that draws the private weights 1 and 2, the modulus 3 and the multiplier 1. -/
lemma genKey_two :
    genKey searchGmpy2 2 [1, 2, 3, 1] = .ok (⟨[1, 2], 3, 1, [1, 2]⟩, []) := by
  have hredraw : redrawR searchGmpy2 3 1 [] = .ok (1, []) := by
    rw [redrawR, if_pos (by decide)]
  have hrun : genKey searchGmpy2 2 [1, 2, 3, 1] = (redrawR searchGmpy2 3 1 [] >>= fun p =>
      .ok (⟨[1, 2], 3, p.1, [1, 2].map fun w => p.1 * w % 3⟩, p.2)) := rfl
  rw [hrun, hredraw]
  rfl

/-! ## Runs that return

The other direction: values in the ranges they are drawn from are those of a run that returns.  The loop
that redraws `_r` may go on for ever, so of its draws only the last is coprime to `_q`. -/

section Returns

variable {n : ℕ} {g : Gmpy2}

/-- A pass of the loop on a value of its range. -/
lemma extendPrivKey_cons {i : ℕ} {front : List ℕ} {w : ℕ} (hlength : front.length = i)
    (hlow : front.sum < w) (hhigh : w ≤ 4 ^ (n + i)) (rest : List ℕ) :
    extendPrivKey n (front, front.sum) i (w :: rest) =
      .ok ((front ++ [w], (front ++ [w]).sum), rest) := by
  have hindex : getItem (front ++ [w]) (i : ℕ) = .ok w := by
    rw [getItem_ofNat (by simp [hlength])]
    simp [← hlength]
  rw [extendPrivKey, bind_of_eq_ok (randint_cons hlow hhigh rest)]
  simp only [hindex]
  rw [List.sum_append, List.sum_singleton]
  rfl

/-- The loop takes superincreasing weights of bounded size, and no other value. -/
lemma foldlM_extendPrivKey {weights : List ℕ} (rest : List ℕ) {i : ℕ} {front : List ℕ}
    (hlength : front.length = i) (hsuper : Superincreasing (front ++ weights))
    (hle : ∀ j (h : j < (front ++ weights).length), (front ++ weights)[j] ≤ 4 ^ (n + j)) :
    (List.range' i weights.length).foldlM (extendPrivKey n) (front, front.sum) (weights ++ rest) =
      .ok ((front ++ weights, (front ++ weights).sum), rest) := by
  induction weights generalizing i front with
  | nil =>
    rw [List.append_nil]
    rfl
  | cons w weights ih =>
    have hi : i < (front ++ w :: weights).length := by simp [hlength]
    have hget : (front ++ w :: weights)[i] = w := by simp [← hlength]
    have hlow : front.sum < w := by
      have hfront := hsuper i hi
      rwa [hget, ← hlength, List.take_left' rfl] at hfront
    have hhigh := hle i hi
    rw [hget] at hhigh
    have hpass := extendPrivKey_cons hlength hlow hhigh (weights ++ rest)
    rw [List.length_cons, List.range'_succ, List.foldlM_cons, List.cons_append, bind_of_eq_ok hpass]
    have hassoc : front ++ w :: weights = front ++ [w] ++ weights := by simp
    simp only [hassoc] at hsuper hle ⊢
    exact ih (by simp [hlength]) hsuper hle

/-- A multiplier that is not coprime to the modulus is drawn again. -/
lemma redrawR_of_ne {q r : ℕ} (h : Nat.gcd r q ≠ 1) (draws : List ℕ) :
    redrawR g q r draws = (randint 1 q >>= redrawR g q) draws := by
  rw [redrawR, g.gcd_eq, if_neg h]
  show _ = (randint 1 q draws >>= fun p => redrawR g q p.1 p.2)
  cases randint 1 q draws with
  | error e => rfl
  | ok p => rfl

/-- The redraws end at the first multiplier that is coprime to the modulus. -/
lemma randint_redrawR {q r : ℕ} {earlier : List ℕ}
    (hearlier : ∀ r' ∈ earlier, (1 ≤ r' ∧ r' ≤ q) ∧ Nat.gcd r' q ≠ 1) (hr : 1 ≤ r ∧ r ≤ q)
    (hcoprime : Nat.gcd r q = 1) (rest : List ℕ) :
    (randint 1 q >>= redrawR g q) (earlier ++ r :: rest) = .ok (r, rest) := by
  induction earlier with
  | nil =>
    rw [List.nil_append, bind_of_eq_ok (randint_cons hr.1 hr.2 rest), redrawR, g.gcd_eq,
      if_pos hcoprime]
  | cons r' earlier ih =>
    obtain ⟨⟨hr', hne⟩, hrest⟩ := List.forall_mem_cons.mp hearlier
    rw [List.cons_append, bind_of_eq_ok (randint_cons hr'.1 hr'.2 _), redrawR_of_ne hne]
    exact ih hrest

/-- A run of `genKey` on values of its ranges: the weights, the modulus, and as many multipliers as it
takes to one that is coprime to it; what is drawn after that is left. -/
lemma genKey_append {ws : List ℕ} (hn : 1 ≤ n) (hlength : ws.length = n)
    (hsuper : Superincreasing ws) (hle : ∀ i (h : i < ws.length), ws[i] ≤ 4 ^ (n + i)) {last q r : ℕ}
    (hlast : getItem ws (n - 1) = .ok last) (hq : last < q ∧ q ≤ 2 * last) {earlier : List ℕ}
    (hearlier : ∀ r' ∈ earlier, (1 ≤ r' ∧ r' ≤ q) ∧ Nat.gcd r' q ≠ 1) (hr : 1 ≤ r ∧ r ≤ q)
    (hcoprime : Nat.gcd r q = 1) (rest : List ℕ) :
    genKey g n (ws ++ q :: (earlier ++ r :: rest)) =
      .ok (⟨ws, q, r, ws.map fun w => r * w % q⟩, rest) := by
  obtain ⟨first, weights, rfl⟩ := List.exists_cons_of_length_pos (l := ws) (by omega)
  have hfirst : 1 ≤ first := hsuper 0 (by simp)
  have hfirst' : first ≤ 4 ^ n := hle 0 (by simp)
  have hloop : (List.range' 1 (n - 1)).foldlM (extendPrivKey n) ([first], first)
      (weights ++ q :: (earlier ++ r :: rest)) =
        .ok ((first :: weights, (first :: weights).sum), q :: (earlier ++ r :: rest)) := by
    have hle' : ∀ j (h : j < ([first] ++ weights).length), ([first] ++ weights)[j] ≤ 4 ^ (n + j) := hle
    rw [← hlength]
    exact foldlM_extendPrivKey _ rfl hsuper (by simpa only [hlength] using hle')
  have hdraws := randint_redrawR (g := g) hearlier hr hcoprime rest
  rw [genKey, List.cons_append, bind_of_eq_ok (randint_cons hfirst hfirst' _), bind_of_eq_ok hloop]
  simp only [hlast]
  rw [bind_of_eq_ok (x := raising (.ok last)) rfl, bind_of_eq_ok (randint_cons hq.1 hq.2 _)]
  rw [← bind_assoc, bind_of_eq_ok hdraws]
  rfl

end Returns

/-- **The draws of `genKey`.**  Whatever its calls of `randint` return, none is from an empty range and
nothing else fails.  The private weights of a run that returns are superincreasing, each but the first
is bounded by its power of four, and the modulus exceeds the last.  And it does build such a sequence:
any weights, modulus and multipliers in the ranges that they are drawn from, of the multipliers only the
last one coprime to the modulus, are the draws of a run that returns the key of just these values. -/
theorem genKey_ranges (g : Gmpy2) {n : ℕ} (hn : 1 ≤ n) :
    (∀ draws e, genKey g n draws ≠ .error (.raises e)) ∧
    (∀ draws key rest, genKey g n draws = .ok (key, rest) → key.privKey.length = n ∧
      (∀ i (h : i < key.privKey.length), 1 ≤ i →
        (key.privKey.take i).sum < key.privKey.get ⟨i, h⟩ ∧
        key.privKey.get ⟨i, h⟩ ≤ 4 ^ (n + i)) ∧
      ∃ last, getItem key.privKey (n - 1) = .ok last ∧ last < key.q) ∧
    ∀ (ws : List ℕ) (last q r : ℕ) (earlier rest : List ℕ), ws.length = n →
      (∀ i (h : i < ws.length), (ws.take i).sum + 1 ≤ ws.get ⟨i, h⟩ ∧ ws.get ⟨i, h⟩ ≤ 4 ^ (n + i)) →
      getItem ws (n - 1) = .ok last → last + 1 ≤ q ∧ q ≤ 2 * last →
      (∀ r' ∈ earlier, (1 ≤ r' ∧ r' ≤ q) ∧ Nat.gcd r' q ≠ 1) → 1 ≤ r ∧ r ≤ q → Nat.gcd r q = 1 →
      genKey g n (ws ++ q :: (earlier ++ r :: rest)) =
        .ok (⟨ws, q, r, ws.map fun w => r * w % q⟩, rest) := by
  refine ⟨fun draws => (ensures_genKey g hn draws).1, ?_, ?_⟩
  · intro draws key rest hrun
    obtain ⟨hvalid, hbounded⟩ := (ensures_genKey g hn draws).2 key rest hrun
    have hlength := hvalid.length
    have hlast : getItem key.privKey ((n : ℤ) - 1) = .ok key.privKey[n - 1] := by
      rw [← Nat.cast_one, ← Nat.cast_sub hn]
      exact getItem_ofNat (by omega)
    refine ⟨hlength, ?_, _, hlast, hvalid.last_lt _ hlast⟩
    intro i h _
    exact ⟨hvalid.superincreasing i h, hbounded i h⟩
  · intro ws last q r earlier rest hlength hranges hlast hq hearlier hr hcoprime
    exact genKey_append hn hlength (fun i h => (hranges i h).1) (fun i h => (hranges i h).2) hlast hq
      hearlier hr hcoprime rest

/-- Two private weights 1 and 2 and the modulus 3; the first multiplier, 3, is drawn again. -/
theorem genKey_ranges_two :
    (∀ e, genKey searchGmpy2 2 [1, 2, 3, 1] ≠ .error (.raises e)) ∧
      (∃ last, getItem [1, 2] (2 - 1) = .ok last ∧ last < 3) ∧
      genKey searchGmpy2 2 ([1, 2] ++ 3 :: ([3] ++ 1 :: [])) =
        .ok (⟨[1, 2], 3, 1, [1, 2].map fun w => 1 * w % 3⟩, []) := by
  obtain ⟨hraises, hreturns, hbuilds⟩ := genKey_ranges searchGmpy2 (n := 2) (by decide)
  refine ⟨hraises _, (hreturns _ _ _ genKey_two).2.2, ?_⟩
  exact hbuilds [1, 2] 2 3 1 [3] [] rfl (by decide) rfl (by decide) (by decide) (by decide) rfl

end Whuctf.Lattice
