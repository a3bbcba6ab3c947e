import Mathlib.Data.List.Basic
import Mathlib.Data.Nat.Notation

/-!
# Query strings

The query of an address is cut at its ampersands, and each piece at its first equals sign, into keys
and values.  How keys and values are decoded is the parameter `unquote`.

A text that a page puts into an address unencoded does not stay where it was put.  What it brings
with it after an ampersand are parameters of its own (`own`), in front of those that the page writes
behind it, and after a number sign nothing is sent (`args_embedded`).

The cutting is the one of form data: a piece without an equals sign has an empty value, and a key may
occur more than once.  Which of its values a handler looks at is left to the handler.
-/

namespace Whuctf.Query

/-- What a browser sends of the query in an address: it removes tabs and line ends, and it keeps the
fragment to itself. -/
def sent : List Char → List Char
  | [] => []
  | c :: rest =>
      if c = '#' then []
      else if c = '\t' ∨ c = '\n' ∨ c = '\r' then sent rest
      else c :: sent rest

section Args

variable (unquote : List Char → List Char)

/-- The parameter in a piece of a query: what is before its first equals sign, and what is behind; an
empty piece has none. -/
def parsePiece (piece : List Char) : Option (List Char × List Char) :=
  if piece = [] then none
  else some (unquote (piece.takeWhile (· ≠ '=')), unquote ((piece.dropWhile (· ≠ '=')).drop 1))

/-- The parameters of a query: its pieces between ampersands, in their order. -/
def args (query : List Char) : List (List Char × List Char) :=
  (query.splitOn '&').filterMap (parsePiece unquote)

/-- The parameters that a text brings with it when it is put into a query as a value. -/
def own (text : List Char) : List (List Char × List Char) :=
  ((sent text).splitOn '&').tail.filterMap (parsePiece unquote)

end Args

/-! ## Texts put into a query

A clean text is its own value.  One that is not is followed through the cutting: the part before its
first ampersand is the value, and the rest becomes pieces, up to a number sign. -/

/-- The characters that a query or a browser does not take as they are. -/
def special : List Char := ['&', '=', '#', '\t', '\n', '\r']

/-- A text that means itself in a query: none of its characters separates, stands for another or ends
it. -/
def Clean (text : List Char) : Prop := ∀ c ∈ text, c ∉ special

lemma clean_of_all {text : List Char} (h : text.all (· ∉ special) = true) : Clean text := fun c hc =>
  of_decide_eq_true (List.all_eq_true.mp h c hc)

section Embedded

lemma sent_cons {c : Char} (h : c ∉ ['#', '\t', '\n', '\r']) (rest : List Char) :
    sent (c :: rest) = c :: sent rest := by
  simp only [List.mem_cons, List.not_mem_nil, or_false, not_or] at h
  rw [sent, if_neg h.1, if_neg (by simp [h])]

lemma sent_append_of_clean {a : List Char} (h : Clean a) (b : List Char) :
    sent (a ++ b) = a ++ sent b := by
  induction a with
  | nil => rfl
  | cons c a ih =>
    have hc : c ∉ ['#', '\t', '\n', '\r'] := fun hmem =>
      h c List.mem_cons_self (List.mem_cons_of_mem _ (List.mem_cons_of_mem _ hmem))
    rw [List.cons_append, sent_cons hc, ih fun d hd => h d (List.mem_cons_of_mem c hd)]
    rfl

/-- Nothing after a number sign is sent, so what comes behind a text with one makes no difference. -/
lemma sent_append (a b : List Char) :
    sent (a ++ b) = if '#' ∈ a then sent a else sent a ++ sent b := by
  induction a with
  | nil => rfl
  | cons c a ih =>
    by_cases hc : c = '#'
    · subst hc
      simp [sent]
    · have hmem : '#' ∈ c :: a ↔ '#' ∈ a := by simp [Ne.symm hc]
      simp only [List.cons_append, sent, if_neg hc, hmem, ih]
      split_ifs <;> rfl

variable {unquote : List Char → List Char}

/-- A piece with a clean key is in front of the pieces of the value. -/
lemma splitOn_piece {key : List Char} (hkey : Clean key) (value : List Char) :
    ∃ head tail, value.splitOn '&' = head :: tail ∧
      (key ++ '=' :: value).splitOn '&' = (key ++ '=' :: head) :: tail := by
  obtain ⟨head, tail, hsplit⟩ := List.exists_cons_of_ne_nil (List.splitOn_ne_nil '&' value)
  refine ⟨head, tail, hsplit, ?_⟩
  induction key with
  | nil => simp [List.splitOn_cons_eq_if_modifyHead, hsplit]
  | cons c key ih =>
    have hc : (c == '&') = false :=
      beq_false_of_ne fun heq => hkey c List.mem_cons_self (heq ▸ List.mem_cons_self)
    rw [List.cons_append, List.splitOn_cons_eq_if_modifyHead, hc,
      ih fun d hd => hkey d (List.mem_cons_of_mem c hd)]
    rfl

lemma parsePiece_eq {key : List Char} (hkey : Clean key) (value : List Char) :
    parsePiece unquote (key ++ '=' :: value) = some (unquote key, unquote value) := by
  have hall : ∀ c ∈ key, decide (c ≠ '=') = true := by
    intro c hc
    apply decide_eq_true
    rintro rfl
    exact hkey '=' hc (by decide)
  rw [parsePiece, if_neg (by simp), List.takeWhile_append_of_pos hall,
    List.dropWhile_append_of_pos hall]
  simp

variable (unquote) in
/-- A first parameter, and those that its value brings with it. -/
lemma args_cons {key : List Char} (hkey : Clean key) (value : List Char) :
    ∃ first, args unquote (key ++ '=' :: value) =
      (unquote key, first) :: (value.splitOn '&').tail.filterMap (parsePiece unquote) := by
  obtain ⟨head, tail, hvalue, hpieces⟩ := splitOn_piece hkey value
  refine ⟨unquote head, ?_⟩
  rw [args, hpieces, List.filterMap_cons_some (parsePiece_eq hkey head), hvalue, List.tail_cons]

variable (unquote) in
/-- **Parameters around an unencoded text.**  A page writes a text after `key=`, and another parameter
behind it.  What the text brings with it comes between the two, and the other parameter arrives only
if the text has no number sign. -/
theorem args_embedded {key next last : List Char} (hkey : Clean key) (hnext : Clean next)
    (hlast : Clean last) (text : List Char) :
    ∃ first, args unquote (sent (key ++ '=' :: (text ++ '&' :: (next ++ '=' :: last)))) =
      (unquote key, first) :: (own unquote text ++
        if '#' ∈ text then [] else [(unquote next, unquote last)]) := by
  have hlastSent : sent (next ++ '=' :: last) = next ++ '=' :: last := by
    have hself := sent_append_of_clean hlast []
    rw [List.append_nil, sent, List.append_nil] at hself
    rw [sent_append_of_clean hnext, sent_cons (by decide), hself]
  have hamp : '&' ∉ next ++ '=' :: last := by
    intro hmem
    rcases List.mem_append.mp hmem with hmem | hmem
    · exact hnext '&' hmem (by decide)
    · rcases List.mem_cons.mp hmem with heq | hmem
      · exact absurd heq (by decide)
      · exact hlast '&' hmem (by decide)
  rw [sent_append_of_clean hkey, sent_cons (by decide), sent_append]
  split_ifs with hhash
  · rw [List.append_nil]
    exact args_cons unquote hkey (sent text)
  · obtain ⟨first, hargs⟩ :=
      args_cons unquote hkey (sent text ++ '&' :: (next ++ '=' :: last))
    refine ⟨first, ?_⟩
    rw [sent_cons (by decide), hlastSent, hargs, List.splitOn_append_cons_self,
      List.tail_append_of_ne_nil (List.splitOn_ne_nil _ _), List.splitOn_eq_singleton hamp,
      List.filterMap_append, List.filterMap_cons_some (parsePiece_eq hnext last)]
    rfl

end Embedded

end Whuctf.Query
