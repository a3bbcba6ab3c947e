import Mathlib.Algebra.Order.Group.Int
import Whuctf.Library.Guessing
import Whuctf.Library.Numerals

/-!
# The check-in game

`checkin.c` draws a number below 1024 and gives the player ten chances to enter it.  Each wrong
number is answered with `SMALL` or `LARGE`, and an input that is not a number with `Invalid`.

The player types characters, as many as they like at a time, and `scanf` takes from them what it
needs: it skips blanks, reads a sign and digits, and leaves the first character it cannot use for
the next call.  Digits that may still go on, and blanks alone, make it wait for more.  The end of
the input behaves like a letter: it ends a number, cannot start one, and stays where it is.

The write-up says that halving always finds the number within the ten chances.  Ten guesses make
a tree of `1 + 2 + … + 512 = 1023` numbers, and a guess wins only when it is made: there is a
player for every set of numbers that leaves out one of the 1024, and none for all of them
(`flag_iff_excluded`).
-/

namespace Whuctf.Checkin

open Guessing (Wins)
open Numerals (digitIn numeral parse)

/-! ## The input

`scanf` is followed character by character, since what it leaves is what the next call starts with.  It
either waits for more or returns, with a number or without one. -/

/-- `isspace`, in the C locale. -/
def isSpace (c : Char) : Bool := c = ' ' ∨ 9 ≤ c.toNat ∧ c.toNat ≤ 13

def isDigit (c : Char) : Bool := (digitIn 10 c).isSome

/-- The `int` stored for a number: read as a saturating `long`, and truncated. -/
def storedInt (negative : Bool) (magnitude : ℕ) : ℤ :=
  let value : ℤ := if negative then -magnitude else magnitude
  (max (-2 ^ 63) (min value (2 ^ 63 - 1))).bmod (2 ^ 32)

/-- `%d` behind the sign: the digits that are there, if there are any, and what is left behind them; it
waits when the text may still go on with digits. -/
def scanDigits (negative : Bool) (text : List Char) : Option (Option ℤ × List Char) :=
  match text.dropWhile isDigit with
  | [] => none
  | rest => some ((parse 10 (text.takeWhile isDigit)).map (storedInt negative), rest)

/-- `scanf("%d", &input)`: the number stored, if there is one, and the characters left for the
next call; `none` while it waits for more of them. -/
def scanf (text : List Char) : Option (Option ℤ × List Char) :=
  match text.dropWhile isSpace with
  | '-' :: rest => scanDigits true rest
  | '+' :: rest => scanDigits false rest
  | rest => scanDigits false rest

/-! ## The program -/

/-- What the player learns from a chance that did not win. -/
inductive Reply
  | small | large | invalid
  deriving DecidableEq, Repr

/-- What the program prints, a line at a time; the prompt names the chances that are left, and the line
of a hit has the flag. -/
inductive Line
  | welcome
  | invitation
  | question
  | prompt (chanceRemain : ℕ)
  | bingo
  | reply (r : Reply)
  | usedUp
  deriving DecidableEq, Repr

def Reply.text : Reply → String
  | small => "Seems your input is too SMALL.\n"
  | large => "Seems your input is too LARGE.\n"
  | invalid => "Invalid input!\n"

def Line.text : Line → String
  | welcome => "Welcome to WHUCTF 2023!\n"
  | invitation => "Let's play a mini game to find the checkin flag!\n"
  | question => "Can you guess the number(0 <= number < 1024) I want?\n"
  | prompt chanceRemain => "[" ++ toString chanceRemain ++ " CHANCE REMAIN] Please input: "
  | bingo =>
      "Bingo! Here is your flag: NOCTF\x7bWelC0m3_4nd_tRy_70_ch4l14ng3_y0us3lF\x7d\n"
  | reply r => r.text
  | usedUp => "You have used up your chance this time :<\n"

/-- What happens in a run: a line is printed, or `scanf` has read an input, which may be no number. -/
inductive Event
  | printed (line : Line)
  | scanned (input : Option ℤ)
  deriving DecidableEq, Repr

/-- A player: the characters typed on the replies seen so far, which is all that a player is told. -/
abbrev Player := List Reply → List Char

/-- `rand() % 1024`, of what `rand` has returned; it is one of 1024 values. -/
def drawnValue (rand : ℕ) : ℤ := (rand % 1024 : ℕ)

/-- What the body of the loop makes of the input: `none` for the right number. -/
def judge (value : ℤ) : Option ℤ → Option Reply
  | none => some .invalid
  | some input =>
      if input = value then none else if input < value then some .small else some .large

/-- The loop, with the replies seen so far and the characters typed but not yet read.  A `scanf`
that waits for characters that do not come is the end of the run. -/
def chances (player : Player) (value : ℤ) : ℕ → List Reply → List Char → List Event
  | 0, _, _ => [.printed .usedUp]
  | chanceRemain + 1, seen, pending =>
      .printed (.prompt (chanceRemain + 1)) ::
        match scanf (pending ++ player seen) with
        | none => []
        | some (input, rest) =>
            .scanned input ::
              match judge value input with
              | none => [.printed .bingo]
              | some reply =>
                  .printed (.reply reply) ::
                    chances player value chanceRemain (seen ++ [reply]) rest

/-- `main`: three lines, and then the loop with ten chances for the value drawn. -/
def main (player : Player) (rand : ℕ) : List Event :=
  .printed .welcome :: .printed .invitation :: .printed .question ::
    chances player (drawnValue rand) 10 [] []

/-- The texts a run prints, without what it reads in between. -/
def output (run : List Event) : List String :=
  run.filterMap fun
    | .printed line => some line.text
    | .scanned _ => none

/-- The inputs of a run, in order, with none for one that `scanf` could not read as a number. -/
def inputs (run : List Event) : List (Option ℤ) :=
  run.filterMap fun
    | .printed _ => none
    | .scanned input => some input

/-- The run prints the flag, as a text: no other line has it. -/
def PrintsFlag (run : List Event) : Prop := Line.bingo.text ∈ output run

/-! ## What the flag takes -/

/-- Only the flag's line has the flag's text, so that what is printed shows whether the game was won. -/
lemma Line.text_eq_bingo_iff (line : Line) : line.text = Line.bingo.text ↔ line = .bingo := by
  cases line with
  | welcome => simp [text]
  | invitation => simp [text]
  | question => simp [text]
  | prompt n =>
      refine ⟨fun h => ?_, fun h => by cases h⟩
      have hhead := congrArg (·.toList.head?) h
      simp [text] at hhead
  | bingo => exact ⟨fun _ => rfl, fun _ => rfl⟩
  | reply r => cases r <;> simp [text, Reply.text]
  | usedUp => simp [text]

lemma printsFlag_iff (run : List Event) : PrintsFlag run ↔ .printed .bingo ∈ run := by
  rw [PrintsFlag, output, List.mem_filterMap]
  constructor
  · rintro ⟨event, hmem, htext⟩
    cases event with
    | printed line =>
        rw [Option.some.injEq, Line.text_eq_bingo_iff] at htext
        rwa [← htext]
    | scanned input => cases htext
  · intro h
    exact ⟨_, h, rfl⟩

lemma mem_inputs {run : List Event} {input : Option ℤ} :
    input ∈ inputs run ↔ .scanned input ∈ run := by
  rw [inputs, List.mem_filterMap]
  constructor
  · rintro ⟨event, hmem, hinput⟩
    cases event with
    | printed line => cases hinput
    | scanned input' =>
        cases hinput
        exact hmem
  · intro h
    exact ⟨_, h, rfl⟩

lemma judge_eq_none {value : ℤ} {input : Option ℤ} : judge value input = none ↔ input = some value := by
  cases input with
  | none => simp [judge]
  | some n =>
      rw [judge, Option.some.injEq]
      by_cases h : n = value
      · simp [h]
      · by_cases hlt : n < value <;> simp [h, hlt]

section Runs

variable {player : Player} {value : ℤ} {chanceRemain : ℕ} {seen : List Reply}
  {pending rest : List Char} {input : Option ℤ}

lemma chances_waits (h : scanf (pending ++ player seen) = none) :
    chances player value (chanceRemain + 1) seen pending =
      [.printed (.prompt (chanceRemain + 1))] := by
  rw [chances, h]

lemma chances_hit (h : scanf (pending ++ player seen) = some (input, rest))
    (hjudge : judge value input = none) :
    chances player value (chanceRemain + 1) seen pending =
      [.printed (.prompt (chanceRemain + 1)), .scanned input, .printed .bingo] := by
  simp only [chances, h, hjudge]

lemma chances_miss {reply : Reply} (h : scanf (pending ++ player seen) = some (input, rest))
    (hjudge : judge value input = some reply) :
    chances player value (chanceRemain + 1) seen pending =
      .printed (.prompt (chanceRemain + 1)) :: .scanned input :: .printed (.reply reply) ::
        chances player value chanceRemain (seen ++ [reply]) rest := by
  simp only [chances, h, hjudge]

/-- The flag is printed only when the value has been entered, in the same run. -/
lemma entered_of_flag (h : .printed .bingo ∈ chances player value chanceRemain seen pending) :
    .scanned (some value) ∈ chances player value chanceRemain seen pending := by
  induction chanceRemain generalizing seen pending with
  | zero => simp [chances] at h
  | succ chanceRemain ih =>
      cases hscan : scanf (pending ++ player seen) with
      | none => simp [chances_waits hscan] at h
      | some scan =>
          obtain ⟨input, rest⟩ := scan
          cases hjudge : judge value input with
          | none =>
              rw [chances_hit hscan hjudge, judge_eq_none.mp hjudge]
              simp
          | some reply =>
              rw [chances_miss hscan hjudge] at h ⊢
              have hlater := ih (by simpa using h)
              simp [hlater]

/-- A run reads at most one input a chance, and none behind the one that wins. -/
lemma length_inputs_chances : (inputs (chances player value chanceRemain seen pending)).length ≤
    chanceRemain := by
  induction chanceRemain generalizing seen pending with
  | zero => exact le_rfl
  | succ chanceRemain ih =>
      cases hscan : scanf (pending ++ player seen) with
      | none => simp [chances_waits hscan, inputs]
      | some scan =>
          obtain ⟨input, rest⟩ := scan
          cases hjudge : judge value input with
          | none => simp [chances_hit hscan hjudge, inputs]
          | some reply =>
              rw [chances_miss hscan hjudge]
              exact Nat.succ_le_succ ih

/-! ## Players as strategies

A player types characters, a strategy names numbers.  What a player's characters are read as is a
strategy, which loses nothing: a chance that reads no number cannot win. -/

/-- The inputs of a player as a strategy: what `scanf` reads on the replies to come. -/
def guess (player : Player) : List Reply → List Char → List Reply → Option ℤ
  | seen, pending, [] => (scanf (pending ++ player seen)).bind (·.1)
  | seen, pending, reply :: replies =>
      guess player (seen ++ [reply]) (((scanf (pending ++ player seen)).map (·.2)).getD []) replies

/-- A run that prints the flag is won by the player's strategy. -/
lemma wins_of_flag (h : .printed .bingo ∈ chances player value chanceRemain seen pending) :
    Wins judge value chanceRemain (guess player seen pending) := by
  induction chanceRemain generalizing seen pending with
  | zero => simp [chances] at h
  | succ chanceRemain ih =>
      cases hscan : scanf (pending ++ player seen) with
      | none => simp [chances_waits hscan] at h
      | some scan =>
          obtain ⟨input, rest⟩ := scan
          have hguess : guess player seen pending [] = input := by
            rw [guess, hscan]
            rfl
          cases hjudge : judge value input with
          | none => exact Guessing.wins_of_hit (by rw [hguess, hjudge])
          | some reply =>
              rw [chances_miss hscan hjudge] at h
              refine (Guessing.wins_of_reply (by rw [hguess, hjudge])).mpr ?_
              simp only [guess, hscan]
              exact ih (by simpa using h)

end Runs

/-! ## Strategies as players

In the other direction the numbers of a strategy are typed as they are written, on lines of their own.
`scanf` reads each back and leaves the line end, which the next call skips. -/

/-- The player who enters the numbers of a strategy, each on a line of its own. -/
def typist (σ : List Reply → ℕ) : Player := fun seen => numeral 10 (σ seen) ++ ['\n']

lemma digitChar_plain : ∀ d < 10, isDigit (Nat.digitChar d) = true ∧
    isSpace (Nat.digitChar d) = false ∧ Nat.digitChar d ≠ '-' ∧ Nat.digitChar d ≠ '+' := by
  decide

lemma isDigit_of_mem_numeral {n : ℕ} {c : Char} (h : c ∈ numeral 10 n) : isDigit c = true := by
  obtain ⟨d, hd, rfl⟩ := List.mem_map.mp h
  exact (digitChar_plain d (Numerals.lt_of_mem_digitsOf (by decide) hd)).1

lemma storedInt_of_lt {n : ℕ} (h : n < 2 ^ 31) : storedInt false n = n := by
  have hlong : max (-2 ^ 63) (min (n : ℤ) (2 ^ 63 - 1)) = n := by omega
  simp only [storedInt, Bool.false_eq_true, if_false, hlong]
  rw [Int.bmod_eq_of_le (by omega) (by omega)]

/-- A sign-less text is read from its first digit on. -/
lemma scanf_of_dropWhile {text rest : List Char} {c : Char}
    (h : text.dropWhile isSpace = c :: rest) (hminus : c ≠ '-') (hplus : c ≠ '+') :
    scanf text = scanDigits false (c :: rest) := by
  unfold scanf
  split
  · rename_i heq
    rw [h] at heq
    exact absurd (List.cons.inj heq).1 hminus
  · rename_i heq
    rw [h] at heq
    exact absurd (List.cons.inj heq).1 hplus
  · rw [h]

/-- A number on a line of its own is read as it is, whatever blanks are left from before. -/
lemma scanf_line {n : ℕ} (hn : n < 2 ^ 31) {pending : List Char}
    (hblank : ∀ c ∈ pending, isSpace c = true) :
    scanf (pending ++ (numeral 10 n ++ ['\n'])) = some (some (n : ℤ), ['\n']) := by
  obtain ⟨d, digits, hdigits⟩ := List.exists_cons_of_ne_nil
    (Numerals.digitsOf_ne_nil (b := 10) (n := n))
  have hd : d < 10 := Numerals.lt_of_mem_digitsOf (b := 10) (n := n) (by decide) (by simp [hdigits])
  obtain ⟨-, hspace, hminus, hplus⟩ := digitChar_plain d hd
  have hnumeral : numeral 10 n = Nat.digitChar d :: digits.map Nat.digitChar := by
    rw [numeral, hdigits]
    rfl
  have hskip : (pending ++ (numeral 10 n ++ ['\n'])).dropWhile isSpace =
      Nat.digitChar d :: (digits.map Nat.digitChar ++ ['\n']) := by
    rw [List.dropWhile_append_of_pos hblank, hnumeral, List.cons_append,
      List.dropWhile_cons_of_neg (by simp [hspace])]
  have htake : (numeral 10 n ++ ['\n']).takeWhile isDigit = numeral 10 n := by
    rw [List.takeWhile_append_of_pos fun c hc => isDigit_of_mem_numeral hc]
    exact List.append_nil _
  have hdrop : (numeral 10 n ++ ['\n']).dropWhile isDigit = ['\n'] := by
    rw [List.dropWhile_append_of_pos fun c hc => isDigit_of_mem_numeral hc]
    rfl
  rw [scanf_of_dropWhile hskip hminus hplus, ← List.cons_append, ← hnumeral, scanDigits, hdrop, htake,
    Numerals.parse_numeral (by decide) (by decide), Option.map_some, storedInt_of_lt hn]

/-- The typist of a winning strategy is shown the flag: what is typed is read as the number that was
meant. -/
lemma flag_of_wins {σ : List Reply → ℕ} (hσ : ∀ replies, σ replies < 2 ^ 31) {value : ℤ}
    {chanceRemain : ℕ} {seen : List Reply} {pending : List Char}
    (hblank : ∀ c ∈ pending, isSpace c = true)
    (h : Wins judge value chanceRemain fun replies => some (σ (seen ++ replies) : ℤ)) :
    .printed .bingo ∈ chances (typist σ) value chanceRemain seen pending := by
  induction chanceRemain generalizing seen pending with
  | zero => exact h.elim
  | succ chanceRemain ih =>
      have hscan : scanf (pending ++ typist σ seen) = some (some (σ seen : ℤ), ['\n']) :=
        scanf_line (hσ seen) hblank
      cases hjudge : judge value (some (σ seen : ℤ)) with
      | none => simp [chances_hit hscan hjudge]
      | some reply =>
          rw [chances_miss hscan hjudge]
          rw [Guessing.wins_of_reply (by rw [List.append_nil, hjudge])] at h
          have hrest : Wins judge value chanceRemain fun replies =>
              some (σ (seen ++ [reply] ++ replies) : ℤ) := by
            simpa only [List.append_assoc, List.singleton_append] using h
          have hnewline : ∀ c ∈ ['\n'], isSpace c = true := by simp [isSpace]
          have hlater := ih hnewline hrest
          simp [hlater]

/-! ## How many numbers a player wins -/

/-- The replies to a wrong input are at most two, whatever the value is, which bounds the decision tree
of a player. -/
lemma judge_misses (input : Option ℤ) :
    ∃ T : Finset Reply, T.card ≤ 2 ∧ ∀ value r, judge value input = some r → r ∈ T := by
  cases input with
  | none =>
      refine ⟨{.invalid}, by decide, fun value r h => ?_⟩
      simp only [judge, Option.some.injEq] at h
      simp [← h]
  | some n =>
      refine ⟨{.small, .large}, by decide, fun value r h => ?_⟩
      by_cases heq : n = value
      · simp [judge, heq] at h
      · by_cases hlt : n < value
        · simp only [judge, if_neg heq, if_pos hlt, Option.some.injEq] at h
          simp [← h]
        · simp only [judge, if_neg heq, if_neg hlt, Option.some.injEq] at h
          simp [← h]

/-- **With `n` chances a player can be shown the flag for every number of a set exactly when the
set has less than `2 ^ n` numbers.** -/
lemma winnable_iff_card (V : Finset ℕ) (hV : ∀ v ∈ V, v < 2 ^ 31) (n : ℕ) :
    (∃ player, ∀ v ∈ V, .printed .bingo ∈ chances player v n [] []) ↔ V.card < 2 ^ n := by
  constructor
  · rintro ⟨player, hplayer⟩
    have hhit : ∀ input (v w : ℕ), judge v input = none → judge w input = none → v = w := by
      intro input v w hv hw
      have heq := (judge_eq_none.mp hv).symm.trans (judge_eq_none.mp hw)
      simpa using heq
    have hmiss : ∀ input, ∃ T : Finset Reply, T.card ≤ 2 ∧
        ∀ (v : ℕ) r, judge v input = some r → r ∈ T := by
      intro input
      obtain ⟨T, hcard, hT⟩ := judge_misses input
      exact ⟨T, hcard, fun v => hT v⟩
    have hbound := Guessing.card_le_of_wins hhit hmiss V fun v hv =>
      (Guessing.wins_comp _ v).mpr (wins_of_flag (hplayer v hv))
    rw [Nat.geomSum_eq le_rfl, Nat.div_one] at hbound
    have hpos : 0 < 2 ^ n := Nat.two_pow_pos n
    omega
  · intro hcard
    rcases V.eq_empty_or_nonempty with rfl | hne
    · exact ⟨fun _ => [], fun v hv => absurd hv (Finset.notMem_empty v)⟩
    · have hask : ∀ v m : ℕ, judge v (some (m : ℤ)) =
          if m = v then none else if m < v then some .small else some .large := by
        intro v m
        simp only [judge, Nat.cast_inj, Nat.cast_lt]
      have hreplies : Reply.small ≠ Reply.large := by decide
      obtain ⟨σ, hσ, hwins⟩ := Guessing.exists_strategy hreplies hask V hne hcard
      refine ⟨typist σ, fun v hv => ?_⟩
      exact flag_of_wins (fun replies => hV _ (hσ replies)) (by simp)
        ((Guessing.wins_comp _ v).mp (hwins v hv))

lemma printsFlag_main_iff (player : Player) (rand : ℕ) :
    PrintsFlag (main player rand) ↔
      .printed .bingo ∈ chances player (rand % 1024 : ℕ) 10 [] [] := by
  simp [printsFlag_iff, main, drawnValue]

/-- Every player misses one of the 1024 numbers, since ten guesses make a tree of 1023. -/
lemma exists_missed (player : Player) :
    ∃ v < 1024, .printed .bingo ∉ chances player (v : ℕ) 10 [] [] := by
  by_contra hall
  push Not at hall
  have hcard := (winnable_iff_card (Finset.range 1024)
    (fun v hv => (Finset.mem_range.mp hv).trans (by decide)) 10).mp
    ⟨player, fun v hv => hall v (Finset.mem_range.mp hv)⟩
  rw [Finset.card_range] at hcard
  omega

/-- **Ten chances are one too few for all numbers, and enough for all but one.**  Whatever `rand`
may return, some player is shown the flag every time if and only if one of the numbers `0..1023` is
never drawn; and in every run a flag that is printed was printed for the number drawn, entered as
one of at most ten inputs. -/
theorem flag_iff_excluded (rands : Set ℕ) :
    ((∃ player, ∀ r ∈ rands, PrintsFlag (main player r)) ↔
      ∃ v < 1024, ∀ r ∈ rands, r % 1024 ≠ v) ∧
    ∀ player r, (inputs (main player r)).length ≤ 10 ∧
      (PrintsFlag (main player r) → some (drawnValue r) ∈ inputs (main player r)) := by
  refine ⟨⟨?_, ?_⟩, fun player r => ⟨length_inputs_chances, fun h => ?_⟩⟩
  · rintro ⟨player, hplayer⟩
    obtain ⟨v, hv, hmissed⟩ := exists_missed player
    refine ⟨v, hv, fun r hr heq => hmissed ?_⟩
    rw [← heq]
    exact (printsFlag_main_iff player r).mp (hplayer r hr)
  · rintro ⟨v, hv, hnever⟩
    have hcard : ((Finset.range 1024).erase v).card < 2 ^ 10 := by
      rw [Finset.card_erase_of_mem (Finset.mem_range.mpr hv), Finset.card_range]
      omega
    obtain ⟨player, hplayer⟩ := (winnable_iff_card ((Finset.range 1024).erase v)
      (fun w hw => (Finset.mem_range.mp (Finset.mem_of_mem_erase hw)).trans (by decide)) 10).mpr hcard
    refine ⟨player, fun r hr => (printsFlag_main_iff player r).mpr (hplayer _ ?_)⟩
    exact Finset.mem_erase.mpr ⟨hnever r hr, Finset.mem_range.mpr (Nat.mod_lt r (by omega))⟩
  · rw [printsFlag_main_iff] at h
    have hentered := entered_of_flag h
    apply mem_inputs.mpr
    simp only [main, List.mem_cons, reduceCtorEq, false_or]
    exact hentered

/-- **No player finds every number.**  Every player misses the number drawn for some value that
`rand` can return. -/
theorem no_player_finds_all :
    ¬∃ player, ∀ r < 2 ^ 31, PrintsFlag (main player r) := by
  rintro ⟨player, hplayer⟩
  obtain ⟨v, hv, hmissed⟩ := exists_missed player
  have hflag := (printsFlag_main_iff player v).mp (hplayer v (by omega))
  rw [Nat.mod_eq_of_lt hv] at hflag
  exact hmissed hflag

end Whuctf.Checkin
