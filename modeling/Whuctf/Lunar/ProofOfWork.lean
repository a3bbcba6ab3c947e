import Mathlib.Data.List.GetD
import Whuctf.Library.Draws
import Whuctf.Library.Refinement
import Whuctf.Library.SplitText
import Whuctf.Lunar.Session

/-!
# The proof of work of the lunar challenge

`proof_of_work` of `chall.py` sends the end of a random text and the hash of the whole, and asks for its
first four characters.  `pow.py` takes the line apart at `==` and at `XXXX`, and then draws four characters
until the hash agrees.

Its second split is made for one `XXXX`.  The end of the text can hold another, since capital letters are
drawn as well.  Then what the script takes for the end is what stands in front of this one, without two
characters, and it hashes texts of at most eight characters: it returns only if one of them has the hash
of the twelve.  Whenever the end holds none, what it returns is accepted, if the network does not cut it
(`solve_accepted`).

Of SHA-256 nothing is assumed but the alphabet of its digests, so that `==` is found where the line has
it.
-/

namespace Whuctf.Lunar

open Draws Python Receive

/-! ## The program -/

/-- `table`: letters and digits, from which the text is drawn. -/
def table : List Char :=
  "abcdefghijklmnopqrstuvwxyzABCDEFGHIJKLMNOPQRSTUVWXYZ0123456789".toList

/-- `sha256(…).hexdigest()`: of the hash, the alphabet of its digests is assumed. -/
structure Sha256 where
  hexdigest : List Char → List Char
  isHex : ∀ text, ∀ c ∈ hexdigest text, c ∈ "0123456789abcdef".toList

/-- What `proof_of_work` sends first: the end of the text, and the hash of the whole. -/
def challenge (sha256 : Sha256) (proof : List Char) : List Char :=
  line ("[+] sha256(XXXX+".toList ++ proof.drop 4 ++ ") == ".toList ++ sha256.hexdigest proof)

/-- `proof_of_work`, for the text it has drawn, on the parts that arrive. -/
def proofOfWork (sha256 : Sha256) (proof : List Char) (parts : List (List Char)) : Option Bool :=
  (recvall parts).map fun (xxxx, _) =>
    if xxxx.length ≠ 4 ∨ sha256.hexdigest (xxxx ++ proof.drop 4) ≠ sha256.hexdigest proof then false
    else true

/-- `random.choice(table)`, `n` times, one character each; what is drawn is a position of the table. -/
def choices : ℕ → Run PyError (List Char)
  | 0 => pure []
  | n + 1 => do
      let i ← draw fun i => i < table.length
      let rest ← choices n
      return table.getD i 'a' :: rest

/-- One pass of the loop of `pow.py`: four characters are drawn, and returned when the hash of the
whole agrees. -/
def guess (sha256 : Sha256) (partProof sha : List Char) : Run PyError (Unit ⊕ List Char) := do
  let xxxx ← choices 4
  if sha = sha256.hexdigest (xxxx ++ partProof) then return .inr xxxx else return .inl ()

/-- What `pow.py` reads from the line it receives: the end of the text and the hash. -/
def readChallenge (temp : List Char) : Except PyError (List Char × List Char) := do
  let temp1 := splitText "==".toList temp
  let piece ← getItem (splitText "XXXX".toList (← getItem temp1 0)) 1
  let partProof := slice piece 1 (piece.length - 2)
  let sha := strip (← getItem temp1 1)
  return (partProof, sha)

/-- `pow.py`, on the line it receives: what it sends back, without the end of line. -/
def solve (sha256 : Sha256) (temp : List Char) : Run PyError (List Char) :=
  match readChallenge temp with
  | .error e => throw (.raises e)
  | .ok (partProof, sha) => loop (fun _ => guess sha256 partProof sha) ()

/-! ## The line

The script splits the line at two texts.  The first occurs once, since neither the text nor the hash
has an equals sign; the second may occur again in the end of the text, and that is what the cases are
on. -/

lemma notMem_of_table {text : List Char} (h : ∀ c ∈ text, c ∈ table) {c : Char} (hc : c ∉ table) :
    c ∉ text :=
  fun hmem => hc (h c hmem)

/-- What a test finds of every character of a text. -/
lemma forall_of_all {P : Char → Prop} [DecidablePred P] {text : List Char}
    (h : text.all (fun c => P c) = true) : ∀ c ∈ text, P c :=
  fun c hc => of_decide_eq_true (List.all_eq_true.mp h c hc)

lemma isSpace_table : ∀ c ∈ table, isSpace c = false := forall_of_all (by decide)

section Challenge

variable (sha256 : Sha256) {proof : List Char}

lemma of_mem_hexdigest {c : Char} (h : c ∈ sha256.hexdigest proof) : c ≠ '=' ∧ isSpace c = false := by
  have hdigits : ∀ c ∈ "0123456789abcdef".toList, c ≠ '=' ∧ isSpace c = false :=
    forall_of_all (by decide)
  exact hdigits c (sha256.isHex proof c h)

/-- The pieces of the line around `==`, which occurs in it once: what is said of the text, and the hash
with the end of line. -/
lemma splitText_challenge (htable : ∀ c ∈ proof, c ∈ table) :
    splitText "==".toList (challenge sha256 proof) =
      ["[+] sha256(".toList ++ ("XXXX".toList ++ ('+' :: (proof.drop 4 ++ ") ".toList))),
        ' ' :: line (sha256.hexdigest proof)] := by
  have hline : challenge sha256 proof =
      ("[+] sha256(".toList ++ ("XXXX".toList ++ ('+' :: (proof.drop 4 ++ ") ".toList)))) ++
        ('=' :: ['='] ++ ' ' :: line (sha256.hexdigest proof)) := by
    simp [challenge, line]
  have hbefore : '=' ∉ "[+] sha256(".toList ++ ("XXXX".toList ++ ('+' :: (proof.drop 4 ++ ") ".toList))) := by
    have hdrop : '=' ∉ proof.drop 4 :=
      fun hmem => notMem_of_table htable (by decide) (List.mem_of_mem_drop hmem)
    simp [hdrop]
  have hafter : ¬['=', '='] <:+: ' ' :: line (sha256.hexdigest proof) := by
    intro h
    have hmem : '=' ∈ ' ' :: line (sha256.hexdigest proof) := h.subset List.mem_cons_self
    rw [line] at hmem
    have hsha : '=' ∈ sha256.hexdigest proof := by simpa using hmem
    exact (of_mem_hexdigest sha256 hsha).1 rfl
  rw [hline]
  show splitText ['=', '='] _ = _
  rw [splitText_append hbefore, splitText_of_not_infix hafter]

lemma strip_hexdigest : strip (' ' :: line (sha256.hexdigest proof)) = sha256.hexdigest proof := by
  rw [strip, List.dropWhile_cons_of_pos (by decide)]
  exact strip_line fun c hc => (of_mem_hexdigest sha256 hc).2

/-- An `XXXX` in what follows the first one is in the end of the text. -/
lemma infix_drop_iff : "XXXX".toList <:+: '+' :: (proof.drop 4 ++ ") ".toList) ↔
    "XXXX".toList <:+: proof.drop 4 := by
  constructor
  · intro h
    have hrest := infix_of_infix_cons (by decide) (by decide) h
    rw [show ") ".toList = [')'] ++ [' '] from rfl, ← List.append_assoc] at hrest
    exact infix_of_infix_concat (by decide) (by decide)
      (infix_of_infix_concat (by decide) (by decide) hrest)
  · intro h
    exact h.trans ((List.prefix_append _ _).isInfix.trans (List.suffix_cons _ _).isInfix)

/-- What is read, by the piece behind the first `XXXX`. -/
lemma readChallenge_of_splitText (htable : ∀ c ∈ proof, c ∈ table) {piece : List Char}
    {pieces : List (List Char)}
    (h : splitText "XXXX".toList ('+' :: (proof.drop 4 ++ ") ".toList)) = piece :: pieces) :
    readChallenge (challenge sha256 proof) =
      .ok (slice piece 1 (piece.length - 2), sha256.hexdigest proof) := by
  have hpieces : splitText "XXXX".toList
      ("[+] sha256(".toList ++ ("XXXX".toList ++ ('+' :: (proof.drop 4 ++ ") ".toList)))) =
      "[+] sha256(".toList :: piece :: pieces := by
    rw [← h]
    exact splitText_append (by decide) _
  have hfirst : ∀ a b : List Char, getItem [a, b] 0 = .ok a := fun _ _ => rfl
  have hsecond : ∀ (a b : List Char) l, getItem (a :: b :: l) 1 = .ok b := fun _ _ _ => by
    simp [getItem]
  unfold readChallenge
  simp only [splitText_challenge sha256 htable, hfirst, ok_bind, hpieces, hsecond, strip_hexdigest]
  rfl

/-- What `pow.py` reads from the line: the hash, and the end of the text when there is no other `XXXX`
in it; otherwise a text of at most four characters. -/
lemma readChallenge_eq (htable : ∀ c ∈ proof, c ∈ table) (hlength : proof.length = 12) :
    ∃ part, readChallenge (challenge sha256 proof) = .ok (part, sha256.hexdigest proof) ∧
      (¬"XXXX".toList <:+: proof.drop 4 → part = proof.drop 4) ∧
      ("XXXX".toList <:+: proof.drop 4 → part.length ≤ 4) := by
  have hafter : ('+' :: (proof.drop 4 ++ ") ".toList)).length = 11 := by
    simp [hlength]
  by_cases h : "XXXX".toList <:+: proof.drop 4
  · obtain ⟨before, rest, hbefore, hsplit⟩ :=
      exists_splitText_of_infix (by decide) (infix_drop_iff.mpr h)
    refine ⟨_, readChallenge_of_splitText sha256 htable hsplit, fun hnot => absurd h hnot, fun _ => ?_⟩
    rw [hbefore, List.length_append, List.length_append] at hafter
    have hfour : "XXXX".toList.length = 4 := rfl
    rw [slice, List.length_take, List.length_drop]
    omega
  · have hsplit := splitText_of_not_infix (mt infix_drop_iff.mp h)
    refine ⟨_, readChallenge_of_splitText sha256 htable hsplit, fun _ => ?_, fun hinfix => absurd hinfix h⟩
    have height : (proof.drop 4).length = 8 := by rw [List.length_drop, hlength]
    rw [hafter, slice, List.drop_one, List.tail_cons]
    exact List.take_left' height

end Challenge

/-! ## Drawing

What a run draws are positions in the table.  Each text of the table can be drawn, so that the loop can
return at its first pass if any text has the hash. -/

/-- What is drawn is a text of `n` characters of the table, and it takes `n` draws. -/
lemma choices_eq_ok {n : ℕ} {x : List Char} {draws rest : List ℕ}
    (h : choices n draws = .ok (x, rest)) :
    x.length = n ∧ (∀ c ∈ x, c ∈ table) ∧ draws.length = n + rest.length := by
  induction n generalizing x draws with
  | zero =>
    cases h
    exact ⟨rfl, nofun, (Nat.zero_add _).symm⟩
  | succ n ih =>
    rw [choices] at h
    obtain ⟨i, mid, hdraw, hmid⟩ := bind_eq_ok h
    obtain ⟨hi, rfl⟩ := draw_eq_ok hdraw
    obtain ⟨others, mid', hothers, hlast⟩ := bind_eq_ok hmid
    cases hlast
    obtain ⟨hlength, hmem, hdraws⟩ := ih hothers
    refine ⟨by rw [List.length_cons, hlength], ?_, by rw [List.length_cons, hdraws]; omega⟩
    intro c hc
    rcases List.mem_cons.mp hc with rfl | hc
    · rw [List.getD_eq_getElem table _ hi]
      exact List.getElem_mem hi
    · exact hmem c hc

/-- Every text of characters of the table can be drawn. -/
lemma exists_choices {x : List Char} (h : ∀ c ∈ x, c ∈ table) :
    ∃ draws, ∀ rest, choices x.length (draws ++ rest) = .ok (x, rest) := by
  induction x with
  | nil => exact ⟨[], fun _ => rfl⟩
  | cons c x ih =>
    obtain ⟨i, hi, hget⟩ := List.getElem_of_mem (h c List.mem_cons_self)
    obtain ⟨draws, hdraws⟩ := ih fun d hd => h d (List.mem_cons_of_mem c hd)
    refine ⟨i :: draws, fun rest => ?_⟩
    have hdraw : draw (E := PyError) (fun i => i < table.length) (i :: (draws ++ rest)) =
        .ok (i, draws ++ rest) := if_pos hi
    rw [List.length_cons, choices, List.cons_append, bind_of_eq_ok hdraw,
      bind_of_eq_ok (hdraws rest), List.getD_eq_getElem table _ hi, hget]
    rfl

section Guess

variable {sha256 : Sha256} {partProof sha : List Char} {draws rest : List ℕ}

lemma guess_eq_ok {next : Unit ⊕ List Char}
    (h : guess sha256 partProof sha draws = .ok (next, rest)) :
    draws.length = 4 + rest.length ∧ ∀ x, next = .inr x →
      x.length = 4 ∧ (∀ c ∈ x, c ∈ table) ∧ sha = sha256.hexdigest (x ++ partProof) := by
  obtain ⟨x, mid, hchoices, h⟩ := bind_eq_ok h
  obtain ⟨hlength, hmem, hdraws⟩ := choices_eq_ok hchoices
  split_ifs at h with hsha
  · cases h
    refine ⟨hdraws, fun y hy => ?_⟩
    cases hy
    exact ⟨hlength, hmem, hsha⟩
  · cases h
    exact ⟨hdraws, nofun⟩

lemma guess_consumes : Consumes fun _ : Unit => guess sha256 partProof sha := by
  intro _ draws next rest h
  have hdraws := (guess_eq_ok h).1
  omega

/-- The loop returns a text of four characters with the hash. -/
lemma loop_guess_eq_ok {x : List Char}
    (h : loop (fun _ => guess sha256 partProof sha) () draws = .ok (x, rest)) :
    x.length = 4 ∧ (∀ c ∈ x, c ∈ table) ∧ sha = sha256.hexdigest (x ++ partProof) := by
  obtain ⟨last, -, hlast⟩ := (loop_eq_ok_iff guess_consumes).mp h
  exact (guess_eq_ok hlast).2 x rfl

end Guess

/-! ## The theorem -/

section Solve

variable (sha256 : Sha256) {proof : List Char}

/-- An answer with the right hash is accepted exactly when it is not cut: the service takes what comes
before a cut for the answer, which is then too short. -/
lemma proofOfWork_iff {x : List Char} (hlength : x.length = 4) (htable : ∀ c ∈ x, c ∈ table)
    (hhash : sha256.hexdigest proof = sha256.hexdigest (x ++ proof.drop 4)) {parts : List (List Char)}
    (hparts : parts.flatten = line x) :
    proofOfWork sha256 proof parts = some true ↔ ArrivesWhole 2048 parts := by
  have hstrip : strip (line x) = x := strip_line fun c hc => isSpace_table c (htable c hc)
  constructor
  · intro haccepted
    obtain ⟨⟨xxxx, rest⟩, hrecv, htest⟩ := Option.map_eq_some_iff.mp haccepted
    have hfour : xxxx.length = 4 := by
      by_contra hne
      have hrefused : (if xxxx.length ≠ 4 ∨ sha256.hexdigest (xxxx ++ proof.drop 4) ≠
          sha256.hexdigest proof then false else true) = false := if_pos (.inl hne)
      exact Bool.false_ne_true (hrefused.symm.trans htest)
    obtain ⟨full, part, rfl, hfull, hpart, hmessage⟩ := recvall_eq_some_iff.mp hrecv
    rw [List.nil_append] at hmessage
    refine ⟨full, part, rest, rfl, hfull, hpart, ?_⟩
    -- four characters have arrived, so what is left is the end of the line
    obtain ⟨before, after, htext⟩ := exists_strip (full.flatten ++ part)
    have hlong : 4 ≤ (full.flatten ++ part).length := by
      rw [htext, ← hmessage, List.length_append, List.length_append]
      omega
    have hrest : rest.flatten = (line x).drop (full.flatten ++ part).length := by
      rw [← hparts, List.flatten_append, List.flatten_cons, ← List.append_assoc, List.drop_left]
    intro c hc
    rw [hrest, line, List.drop_append, List.drop_eq_nil_of_le (hlength ▸ hlong), List.nil_append] at hc
    rw [List.mem_singleton.mp (List.mem_of_mem_drop hc)]
    rfl
  · intro hwhole
    obtain ⟨rest, hrecv⟩ := (recvall_eq_strip_iff 2048 parts).mpr hwhole
    rw [hparts, hstrip] at hrecv
    rw [proofOfWork, recvall, hrecv, Option.map_some]
    simp only [Option.some.injEq]
    rw [if_neg]
    rintro (hne | hne)
    · exact hne hlength
    · exact hne hhash.symm

/-- The four characters that were drawn can be drawn again, and end the loop at once. -/
lemma exists_guess (htable : ∀ c ∈ proof, c ∈ table) (hlength : proof.length = 12) :
    ∃ draws, ∀ rest, loop (fun _ => guess sha256 (proof.drop 4) (sha256.hexdigest proof)) ()
      (draws ++ rest) = .ok (proof.take 4, rest) := by
  have hfour : (proof.take 4).length = 4 := by rw [List.length_take, hlength]; rfl
  obtain ⟨draws, hdraws⟩ := exists_choices fun c hc => htable c (List.mem_of_mem_take hc)
  refine ⟨draws, fun rest => (loop_eq_ok_iff guess_consumes).mpr ⟨_, .refl, ?_⟩⟩
  have hchoices := hdraws rest
  rw [hfour] at hchoices
  rw [guess, bind_of_eq_ok hchoices, List.take_append_drop, if_pos rfl]
  rfl

lemma solve_eq {part sha : List Char} {temp : List Char} (h : readChallenge temp = .ok (part, sha)) :
    solve sha256 temp = loop (fun _ => guess sha256 part sha) () := by
  unfold solve
  simp only [h]

/-- **The proof of work.**  For every text that `proof_of_work` can draw: when its end holds no `XXXX`,
whatever `pow.py` draws, what it returns is accepted exactly when the line with it arrives whole, and some
draws make it return; when its end holds one, it returns only four characters that, with at most four more
behind them, have the hash of the twelve. -/
theorem solve_accepted (proof : List Char) (htable : ∀ c ∈ proof, c ∈ table)
    (hlength : proof.length = 12) :
    (¬"XXXX".toList <:+: proof.drop 4 →
      (∀ draws x rest, solve sha256 (challenge sha256 proof) draws = .ok (x, rest) →
        ∀ parts : List (List Char), parts.flatten = line x →
          (proofOfWork sha256 proof parts = some true ↔ ArrivesWhole 2048 parts)) ∧
      ∃ draws, ∀ rest, solve sha256 (challenge sha256 proof) (draws ++ rest) =
        .ok (proof.take 4, rest)) ∧
    ("XXXX".toList <:+: proof.drop 4 →
      ∀ draws x rest, solve sha256 (challenge sha256 proof) draws = .ok (x, rest) →
        x.length = 4 ∧ ∃ more : List Char, more.length ≤ 4 ∧
          sha256.hexdigest (x ++ more) = sha256.hexdigest proof) := by
  obtain ⟨part, hread, hwhole, hshort⟩ := readChallenge_eq sha256 htable hlength
  rw [solve_eq sha256 hread]
  constructor
  · intro hnot
    rw [hwhole hnot]
    refine ⟨fun draws x rest hrun parts hparts => ?_, exists_guess sha256 htable hlength⟩
    obtain ⟨hfour, hx, hhash⟩ := loop_guess_eq_ok hrun
    exact proofOfWork_iff sha256 hfour hx hhash hparts
  · intro hinfix draws x rest hrun
    obtain ⟨hfour, -, hhash⟩ := loop_guess_eq_ok hrun
    exact ⟨hfour, part, hshort hinfix, hhash.symm⟩

/-- SHA-256 on two texts that can be drawn, the second with an `XXXX` at its end. -/
def digests : Sha256 where
  hexdigest text :=
    if text = "WXYZabcdefgh".toList then
      "8960cbc01a3fe0475454709807164bd48768d1b880307e9027fa8642a3b7f202".toList
    else if text = "WXYZaXXXXbcd".toList then
      "8155e97dad6a3a4f8d9d00d71d036deabd46c9899b782918fd6c4ab54f3322e9".toList
    else List.replicate 64 '0'
  isHex text := by
    split_ifs
    · exact forall_of_all (by decide)
    · exact forall_of_all (by decide)
    · exact forall_of_all (by decide)

/-- For the first of them the script returns what was drawn and the service accepts it; for the second, whose
hash no shorter text has, it returns under no draws. -/
theorem solve_accepted_digests :
    (∃ draws, solve digests (challenge digests "WXYZabcdefgh".toList) draws = .ok ("WXYZ".toList, []) ∧
      proofOfWork digests "WXYZabcdefgh".toList [line "WXYZ".toList] = some true) ∧
    ∀ draws x rest, solve digests (challenge digests "WXYZaXXXXbcd".toList) draws ≠ .ok (x, rest) := by
  constructor
  · obtain ⟨haccepted, draws, hdraws⟩ := (solve_accepted digests "WXYZabcdefgh".toList
      (forall_of_all (by decide)) (by decide)).1 (by decide)
    have hrun := hdraws []
    refine ⟨draws ++ [], hrun, (haccepted _ _ _ hrun [line "WXYZ".toList] rfl).mpr ?_⟩
    exact ⟨[], line "WXYZ".toList, [], rfl, nofun, by decide, nofun⟩
  · intro draws x rest hrun
    obtain ⟨hfour, more, hmore, hhash⟩ := (solve_accepted digests "WXYZaXXXXbcd".toList
      (forall_of_all (by decide)) (by decide)).2 (by decide) draws x rest hrun
    have hshort : (x ++ more).length ≤ 8 := by rw [List.length_append]; omega
    have hfirst : x ++ more ≠ "WXYZabcdefgh".toList := fun h => by
      rw [h] at hshort
      exact absurd hshort (by decide)
    have hsecond : x ++ more ≠ "WXYZaXXXXbcd".toList := fun h => by
      rw [h] at hshort
      exact absurd hshort (by decide)
    have hzeros : digests.hexdigest (x ++ more) = List.replicate 64 '0' := by
      rw [digests]
      simp only [if_neg hfirst, if_neg hsecond]
    rw [hzeros] at hhash
    exact absurd hhash (by decide)

end Solve

end Whuctf.Lunar
