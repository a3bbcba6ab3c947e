import Whuctf.Library.Utf8

/-!
# JSON texts of dictionaries

`json.dumps` of a dictionary from texts to texts, with its default separators and with every
character outside printable ASCII escaped, and the values that `json.loads` can return.  A text is
plain when none of its characters is escaped.

`InvertsDumps` is what the programs rely on when they read back what they have written.  `loadsFlat`,
which reads dictionaries of plain texts only, has this property.

Texts with escapes are written here and not read: where a program reads only what it has written
itself, and that is plain, nothing else comes up.  A reader of the whole of JSON is an instance of
`InvertsDumps` as much as `loadsFlat` is.
-/

namespace Whuctf.Json

open Python Utf8

/-- The values of JSON; a number is kept as its literal. -/
inductive Value
  | null
  | bool (b : Bool)
  | number (literal : List Char)
  | string (text : List Char)
  | array (items : List Value)
  | object (members : List (List Char × Value))

/-- A dictionary from texts to texts, in the order of its insertions. -/
abbrev Dict := List (List Char × List Char)

/-- `d[key] = value`: a new key comes last, and a key that is there keeps its place. -/
def Dict.set (key value : List Char) : Dict → Dict
  | [] => [(key, value)]
  | (k, v) :: rest => if k = key then (k, value) :: rest else (k, v) :: Dict.set key value rest

/-- The JSON value of a dictionary: an object whose members are strings, in the order of the keys. -/
def ofDict (d : Dict) : Value := .object (d.map fun kv => (kv.1, .string kv.2))

/-! ## Writing

The default of the writer is ASCII output.  Characters outside are written as one escape, or as the two
halves of a pair when they do not fit into 16 bits. -/

/-- `\uXXXX`, with the four hexadecimal digits of a unit of 16 bits. -/
def escapeUnit (n : ℕ) : List Char :=
  '\\' :: 'u' :: Numerals.textOf [n / 4096 % 16, n / 256 % 16, n / 16 % 16, n % 16]

/-- A character inside a JSON string: the short escapes, the character itself when it is printable
ASCII, or its code in escapes of 16 bits. -/
def escape (c : Char) : List Char :=
  if c = '"' then ['\\', '"']
  else if c = '\\' then ['\\', '\\']
  else if c = '\n' then ['\\', 'n']
  else if c = '\r' then ['\\', 'r']
  else if c = '\t' then ['\\', 't']
  else if c = '\x08' then ['\\', 'b']
  else if c = '\x0c' then ['\\', 'f']
  else if ' ' ≤ c ∧ c ≤ '~' then [c]
  else if c.toNat < 0x10000 then escapeUnit c.toNat
  -- a pair of surrogates
  else escapeUnit (0xd800 + (c.toNat - 0x10000) / 0x400) ++
    escapeUnit (0xdc00 + (c.toNat - 0x10000) % 0x400)

/-- A text as a JSON string, each of its characters escaped where it has to be, between quotes. -/
def quoted (text : List Char) : List Char := '"' :: (text.flatMap escape ++ ['"'])

/-- One member of an object: the key, a colon and a blank, and the value. -/
def member (kv : List Char × List Char) : List Char :=
  quoted kv.1 ++ (':' :: ' ' :: quoted kv.2)

/-- `json.dumps(d)`: the members in the order of the dictionary, with a comma and a blank between them.
-/
def dumps (d : Dict) : List Char :=
  '\x7b' :: ([',', ' '].intercalate (d.map member) ++ ['\x7d'])

/-- Further members, each after its separator, which is a comma and a blank. -/
def more (d : Dict) : List Char := d.flatMap fun kv => ',' :: ' ' :: member kv

lemma dumps_cons (kv : List Char × List Char) (d : Dict) :
    dumps (kv :: d) = '\x7b' :: (member kv ++ (more d ++ ['\x7d'])) := by
  have hmembers : ∀ kv, [',', ' '].intercalate ((kv :: d).map member) = member kv ++ more d := by
    induction d with
    | nil => intro kv; simp [more]
    | cons next rest ih =>
      intro kv
      rw [List.map_cons, List.map_cons, List.intercalate_cons_cons, ← List.map_cons, ih next]
      simp [more]
  rw [dumps, hmembers, List.append_assoc]

/-! ## ASCII -/

/-- A text of ASCII characters, whose codes fit in seven bits. -/
def Ascii (text : List Char) : Prop := ∀ c ∈ text, c.toNat < 0x80

lemma Ascii.append {s t : List Char} (hs : Ascii s) (ht : Ascii t) : Ascii (s ++ t) := by
  intro c hc
  rcases List.mem_append.mp hc with hc | hc
  · exact hs c hc
  · exact ht c hc

lemma Ascii.cons {c : Char} {text : List Char} (hc : c.toNat < 0x80) (h : Ascii text) :
    Ascii (c :: text) := by
  intro d hd
  rcases List.mem_cons.mp hd with rfl | hd
  · exact hc
  · exact h d hd

lemma Ascii.flatMap {α : Type*} {l : List α} {f : α → List Char} (h : ∀ a ∈ l, Ascii (f a)) :
    Ascii (l.flatMap f) := by
  intro c hc
  obtain ⟨a, ha, hmem⟩ := List.mem_flatMap.mp hc
  exact h a ha c hmem

lemma ascii_escapeUnit (n : ℕ) : Ascii (escapeUnit n) := by
  have hdigit : ∀ d < 16, (Nat.digitChar d).toNat < 0x80 := by decide
  refine .cons (by decide) (.cons (by decide) ?_)
  intro c hc
  obtain ⟨d, hd, rfl⟩ := List.mem_map.mp hc
  apply hdigit
  simp only [List.mem_cons, List.not_mem_nil, or_false] at hd
  omega

/-- Whatever the character, its spelling is ASCII, since all others are written as escapes. -/
lemma ascii_escape (c : Char) : Ascii (escape c) := by
  have hpair : ∀ d : Char, d.toNat < 0x80 → Ascii ['\\', d] := fun d hd =>
    .cons (by decide) (.cons hd nofun)
  unfold escape
  split_ifs with _ _ _ _ _ _ _ hprintable
  iterate 7 exact hpair _ (by decide)
  · have hle : c.toNat ≤ '~'.toNat := hprintable.2
    exact .cons (hle.trans_lt (by decide)) nofun
  · exact ascii_escapeUnit _
  · exact (ascii_escapeUnit _).append (ascii_escapeUnit _)

lemma ascii_member (kv : List Char × List Char) : Ascii (member kv) := by
  have hquoted : ∀ text, Ascii (quoted text) := fun text =>
    .cons (by decide) (.append (.flatMap fun c _ => ascii_escape c) (.cons (by decide) nofun))
  exact (hquoted kv.1).append (.cons (by decide) (.cons (by decide) (hquoted kv.2)))

lemma ascii_dumps (d : Dict) : Ascii (dumps d) := by
  cases d with
  | nil => exact .cons (by decide) (.cons (by decide) nofun)
  | cons kv d =>
    rw [dumps_cons]
    refine .cons (by decide) ((ascii_member kv).append (.append (.flatMap fun next _ => ?_) ?_))
    · exact .cons (by decide) (.cons (by decide) (ascii_member next))
    · exact .cons (by decide) nofun

/-! ## Plain texts -/

/-- The characters that are written as they are: printable ASCII but for the quote and the backslash. -/
def isPlain (c : Char) : Bool := ' ' ≤ c ∧ c ≤ '~' ∧ c ≠ '"' ∧ c ≠ '\\'

/-- A text without characters to escape, which is its own spelling. -/
def Plain (text : List Char) : Prop := ∀ c ∈ text, isPlain c = true

/-- A dictionary whose keys and values are plain. -/
def Dict.Plain (d : Dict) : Prop := ∀ kv ∈ d, Json.Plain kv.1 ∧ Json.Plain kv.2

lemma plain_of_all {text : List Char} (h : text.all isPlain = true) : Plain text :=
  List.all_eq_true.mp h

lemma toNat_of_isPlain {c : Char} (h : isPlain c = true) : 0x20 ≤ c.toNat ∧ c.toNat < 0x7f := by
  obtain ⟨hlow, hhigh, -⟩ := of_decide_eq_true h
  have hle : ' '.toNat ≤ c.toNat := hlow
  have hge : c.toNat ≤ '~'.toNat := hhigh
  exact ⟨hle, Nat.lt_succ_of_le hge⟩

lemma escape_plain {c : Char} (h : isPlain c = true) : escape c = [c] := by
  obtain ⟨hlow, hhigh, hquote, hbackslash⟩ := of_decide_eq_true h
  have hcontrol : ∀ d : Char, d.toNat < 0x20 → c ≠ d := by
    rintro d hd rfl
    exact absurd (toNat_of_isPlain h).1 (by omega)
  rw [escape, if_neg hquote, if_neg hbackslash, if_neg (hcontrol '\n' (by decide)),
    if_neg (hcontrol '\r' (by decide)), if_neg (hcontrol '\t' (by decide)),
    if_neg (hcontrol '\x08' (by decide)), if_neg (hcontrol '\x0c' (by decide)),
    if_pos ⟨hlow, hhigh⟩]

lemma quoted_plain {text : List Char} (h : Plain text) : quoted text = '"' :: (text ++ ['"']) := by
  have hescape : text.flatMap escape = text := by
    induction text with
    | nil => rfl
    | cons c rest ih =>
      rw [List.flatMap_cons, escape_plain (h c List.mem_cons_self),
        ih fun d hd => h d (List.mem_cons_of_mem c hd)]
      rfl
  rw [quoted, hescape]

lemma member_plain {key value : List Char} (hkey : Plain key) (hvalue : Plain value) :
    member (key, value) = '"' :: (key ++ ('"' :: ':' :: ' ' :: '"' :: (value ++ ['"']))) := by
  rw [member, quoted_plain hkey, quoted_plain hvalue]
  simp

/-! ## Reading

The reader follows the writer: an object is its members with their separators, a member two strings
with a colon between them, and a string ends at the next quote because nothing in it is escaped. -/

/-- `loads` reads the texts of plain dictionaries back, as the dictionaries they were written from. -/
def InvertsDumps (loads : List Byte → Except PyError Value) : Prop :=
  ∀ d : Dict, (d.map Prod.fst).Nodup → d.Plain → loads (encodeAscii (dumps d)) = .ok (ofDict d)

/-- The rest of a text after `token`, if it begins with it. -/
def expect (token text : List Char) : Option (List Char) :=
  if token <+: text then some (text.drop token.length) else none

/-- The plain characters up to the next quote, and what follows it. -/
def readString : List Char → Option (List Char × List Char)
  | [] => none
  | c :: rest =>
      if c = '"' then some ([], rest)
      else if isPlain c then (readString rest).map fun p => (c :: p.1, p.2)
      else none

/-- A member of an object, and what follows it; a text of another form is not read. -/
def readMember (text : List Char) : Option ((List Char × List Char) × List Char) := do
  let (key, text) ← readString (← expect ['"'] text)
  let (value, text) ← readString (← expect [':', ' ', '"'] text)
  return ((key, value), text)

/-- At most `fuel` members up to the end of the object. -/
def readMembers (fuel : ℕ) (text : List Char) : Option Dict :=
  match fuel with
  | 0 => none
  | fuel + 1 => do
      let (kv, text) ← readMember text
      if text = ['\x7d'] then return [kv]
      else return kv :: (← readMembers fuel (← expect [',', ' '] text))

/-- An object of plain texts; the brace that ends it is the end of the text. -/
def readObject (text : List Char) : Option Dict := do
  let text ← expect ['\x7b'] text
  if text = ['\x7d'] then return [] else readMembers text.length text

/-- The part of `json.loads` that reads dictionaries of plain texts; it refuses the other texts. -/
def loadsFlat (bs : List Byte) : Except PyError Value := do
  match readObject (← decode bs) with
  | some d => return ofDict d
  | none => .error .valueError

lemma expect_append (token rest : List Char) : expect token (token ++ rest) = some rest := by
  rw [expect, if_pos (List.prefix_append token rest), List.drop_left]

lemma readString_plain {text : List Char} (h : Plain text) (rest : List Char) :
    readString (text ++ '"' :: rest) = some (text, rest) := by
  induction text with
  | nil => rfl
  | cons c text ih =>
    have hc := h c List.mem_cons_self
    have hquote : c ≠ '"' := (of_decide_eq_true hc).2.2.1
    rw [List.cons_append, readString, if_neg hquote, if_pos hc,
      ih fun d hd => h d (List.mem_cons_of_mem c hd)]
    rfl

lemma readMember_member {key value : List Char} (hkey : Plain key) (hvalue : Plain value)
    (rest : List Char) : readMember (member (key, value) ++ rest) = some ((key, value), rest) := by
  have htext : member (key, value) ++ rest =
      ['"'] ++ (key ++ '"' :: ([':', ' ', '"'] ++ (value ++ '"' :: rest))) := by
    rw [member_plain hkey hvalue]
    simp
  simp only [readMember, htext, expect_append, readString_plain hkey, readString_plain hvalue,
    Option.bind_eq_bind, Option.bind_some, Option.pure_def]

lemma readMembers_more {kv : List Char × List Char} {d : Dict} (h : Dict.Plain (kv :: d)) {fuel : ℕ}
    (hfuel : d.length < fuel) :
    readMembers fuel (member kv ++ (more d ++ ['\x7d'])) = some (kv :: d) := by
  induction d generalizing kv fuel with
  | nil =>
    obtain ⟨fuel, rfl⟩ := Nat.exists_eq_add_one_of_ne_zero hfuel.ne'
    obtain ⟨hkey, hvalue⟩ := h kv List.mem_cons_self
    simp only [readMembers, readMember_member hkey hvalue, Option.bind_eq_bind, Option.bind_some]
    rfl
  | cons next rest ih =>
    obtain ⟨fuel, rfl⟩ := Nat.exists_eq_add_one_of_ne_zero (Nat.ne_zero_of_lt hfuel)
    obtain ⟨hkey, hvalue⟩ := h kv List.mem_cons_self
    have htail : more (next :: rest) ++ ['\x7d'] =
        [',', ' '] ++ (member next ++ (more rest ++ ['\x7d'])) := by
      simp [more]
    have hnot : more (next :: rest) ++ ['\x7d'] ≠ ['\x7d'] := by
      rw [htail]
      simp
    have hrest := ih (fun p hp => h p (List.mem_cons_of_mem kv hp)) (Nat.lt_of_succ_lt_succ hfuel)
    simp only [readMembers, readMember_member hkey hvalue, Option.bind_eq_bind, Option.bind_some,
      if_neg hnot]
    rw [htail, expect_append, Option.bind_some, hrest]
    rfl

lemma length_lt_more (d : Dict) : d.length ≤ (more d).length := by
  induction d with
  | nil => exact Nat.zero_le _
  | cons kv d ih =>
    rw [more, List.flatMap_cons, List.length_append, ← more]
    simp only [List.length_cons]
    omega

lemma readObject_dumps {d : Dict} (h : d.Plain) : readObject (dumps d) = some d := by
  cases d with
  | nil => rfl
  | cons kv d =>
    have hnot : member kv ++ (more d ++ ['\x7d']) ≠ ['\x7d'] := by
      simp [member, quoted]
    have hfuel : d.length < (member kv ++ (more d ++ ['\x7d'])).length := by
      have hle := length_lt_more d
      simp only [List.length_append, List.length_singleton]
      omega
    have hopen := expect_append ['\x7b'] (member kv ++ (more d ++ ['\x7d']))
    rw [List.singleton_append] at hopen
    rw [readObject, dumps_cons, hopen, Option.bind_eq_bind, Option.bind_some, if_neg hnot,
      readMembers_more h hfuel]

/-- The reader of plain dictionaries inverts the writer. -/
theorem loadsFlat_invertsDumps : InvertsDumps loadsFlat := by
  intro d _ hplain
  have hdecode := decode_encodeAscii (ascii_dumps d)
  rw [loadsFlat, hdecode, ok_bind, readObject_dumps hplain]
  rfl

end Whuctf.Json
