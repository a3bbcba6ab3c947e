import Whuctf.Library.Cbc
import Whuctf.Library.Json

/-!
# The server of who-are-you

`app.py` writes nine fields of a form as a JSON text, encrypts it in CBC mode and returns the iv and
the ciphertext; `/decrypt` takes both back, and returns the flag when the name is `admin`.  The form
is refused when one of its values has a character outside a fixed alphabet or is `admin`.

AES under the key of the server is an arbitrary permutation of the blocks, and `json.loads` an
arbitrary function.  A text that the server encrypts is plain for JSON, because the alphabet of the
form is (`Accepted.plain`), and what `/` returns for an accepted form is its iv and the ciphertext of
its dictionary (`userInfo_post_iff`).
-/

namespace Whuctf.WhoAreYou

open Python Utf8 Json

/-! ## The program

The fields of a form come in the order in which they were sent, and the dictionary has them in the
order of the source.  Whatever the handlers do not fix themselves, the key, the pictures and the reader
of JSON, is in `Server`. -/

/-- `AES.block_size`, in bytes. -/
abbrev blockSize : ℕ := 16

abbrev Block := Vector Byte blockSize

/-- The exceptions of the handlers: those of a form and of a dictionary without the key, of a field
that is missing, and those of the functions that are called. -/
inductive WebError
  | badRequestKeyError | keyError | typeError
  | python (e : PyError)
  deriving DecidableEq, Repr

/-- A call of the standard library or of pycryptodome, with its exceptions among those of the handlers.
-/
def calling {α : Type} (x : Except PyError α) : Except WebError α := x.mapError .python

/-- What a handler returns, as the template it renders and the values that go into it. -/
inductive Response
  | index
  | message (text : List Char)
  | cipher (iv cipher : List Char)
  | flag
  | op (name : Value) (opname imgpath : List Char)

/-- The fields of a form, in the order in which they were sent. -/
abbrev Form := List (List Char × List Char)

/-- The first value of each key, once `seen` has been listed. -/
def itemsAfter (seen : List (List Char)) : Form → Form
  | [] => []
  | (key, value) :: rest =>
      if key ∈ seen then itemsAfter seen rest else (key, value) :: itemsAfter (key :: seen) rest

/-- `form.items()`, which has the first value only of a key that was sent more than once. -/
def items (form : Form) : Form := itemsAfter [] form

/-- `form[key]`: the first value of the key, or the exception for a bad request. -/
def field (form : Form) (key : List Char) : Except WebError (List Char) :=
  match form.lookup key with
  | some value => .ok value
  | none => .error .badRequestKeyError

/-- `string.ascii_letters + string.digits + ".@-_!"`, the characters that a value may have. -/
def charset : List Char :=
  "abcdefghijklmnopqrstuvwxyzABCDEFGHIJKLMNOPQRSTUVWXYZ0123456789.@-_!".toList

def admin : List Char := "admin".toList

def safe (data : List Char) : Bool := if data = admin then false else data.all (· ∈ charset)

def safeForm (data : Form) : Bool := (items data).all fun item => safe item.2

def nameKey : List Char := "name".toList

/-- The keys of `user_info` after the name. -/
def otherKeys : List (List Char) :=
  ["age".toList, "phone".toList, "email".toList, "birthday".toList, "qq".toList, "qqpass".toList,
    "cardid".toList, "cardpass".toList]

/-- The dictionary `user_info` of a form: the name and eight other fields, each of which has to be
there. -/
def readInfo (data : Form) : Except WebError Dict :=
  (nameKey :: otherKeys).mapM fun key => do return (key, ← field data key)

inductive Method
  | get | post
  deriving DecidableEq, Repr

/-- What the handlers find in their surroundings: the cipher under the secret key, the reader of JSON,
and the pictures. -/
structure Server where
  /-- AES under `encryption_key`. -/
  aes : Equiv.Perm Block
  /-- `json.loads` of the decrypted bytes. -/
  loads : List Byte → Except PyError Value
  /-- The listing of `static/op`. -/
  opPics : List (List Char)
  /-- The directory holds the pictures of the repository. -/
  opPics_ne : opPics ≠ []

/-- The error text of the form. -/
def badCharset : List Char :=
  "Bad charset in input. (English name only and can't be admin)".toList

/-- The handler of `/`; `iv` is what `get_random_bytes` returns.  The dictionary is read before the
form is checked, so a missing field raises an exception even in a form that would be refused. -/
def Server.userInfo (server : Server) (method : Method) (data : Form) (iv : Block) :
    Except WebError Response := do
  if method = .post then
    let info ← readInfo data
    if !safeForm data then return .message badCharset
    let encrypted ← calling
      (Cbc.encryptBytes server.aes iv.toList (Cbc.pad blockSize (encodeAscii (dumps info))))
    return .cipher (hex iv.toList) (hex encrypted)
  else return .index

/-- `bytes.fromhex` of a field that may be missing, which raises then. -/
def fromhexField : Option (List Char) → Except WebError (List Byte)
  | some text => calling (fromhex text)
  | none => .error .typeError

/-- `decrypted_info` of `/decrypt`, without its padding: both fields are read as hexadecimal texts, and
the data decrypted under the iv. -/
def Server.decryptedInfo (server : Server) (form : Form) : Except WebError (List Byte) := do
  let iv ← fromhexField (form.lookup "iv".toList)
  let encrypted ← fromhexField (form.lookup "data".toList)
  let decrypted ← calling (Cbc.decryptBytes server.aes iv encrypted)
  calling (Cbc.unpad blockSize decrypted)

/-- `user_info['name']`, of a value that need not be a dictionary. -/
def nameOf : Value → Except WebError Value
  | .object members =>
      match members.lookup nameKey with
      | some value => .ok value
      | none => .error .keyError
  | _ => .error .typeError

/-- `value == "admin"`, which no value but that text is. -/
def isAdmin : Value → Bool
  | .string text => text = admin
  | _ => false

/-- `random.choice(pics)`, where `draw` is the random number. -/
def choice (pics : List (List Char)) (draw : ℕ) : Except PyError (List Char) :=
  getItem pics ((draw % pics.length : ℕ) : ℤ)

/-- The handler of `/decrypt`: the JSON text is read, a picture drawn, and the flag or the page of the
user returned, as the name decides. -/
def Server.decrypt (server : Server) (form : Form) (draw : ℕ) : Except WebError Response := do
  let info ← calling (server.loads (← server.decryptedInfo form))
  let pic ← calling (choice server.opPics draw)
  let name ← nameOf info
  if isAdmin name then return .flag
  return .op name (pic.takeWhile (· ≠ '.')) ("static/op/".toList ++ pic)

/-! ## Accepted forms

Every value that goes into the dictionary is one of the form and was checked.  So the dictionary is
plain, and its JSON text is ASCII without escapes. -/

/-- The form passes the checks of `/`, and `info` is what the server encrypts. -/
def Accepted (data : Form) (info : Dict) : Prop := readInfo data = .ok info ∧ safeForm data = true

lemma calling_ok {α : Type} (a : α) : calling (.ok a) = .ok a := rfl

lemma mem_itemsAfter {seen : List (List Char)} {form : Form} {key value : List Char}
    (hseen : key ∉ seen) (h : form.lookup key = some value) :
    (key, value) ∈ itemsAfter seen form := by
  induction form generalizing seen with
  | nil => simp at h
  | cons item rest ih =>
    obtain ⟨k, v⟩ := item
    by_cases hkey : key = k
    · subst hkey
      rw [List.lookup_cons_self, Option.some.injEq] at h
      rw [itemsAfter, if_neg hseen, h]
      exact List.mem_cons_self
    · have hlookup : rest.lookup key = some value := by
        rwa [List.lookup_cons, beq_false_of_ne hkey] at h
      rw [itemsAfter]
      split_ifs
      · exact ih hseen hlookup
      · refine List.mem_cons_of_mem _ (ih ?_ hlookup)
        simp [hkey, hseen]

/-- Every value that a safe form has for a key is safe. -/
lemma safe_of_lookup {data : Form} (hsafe : safeForm data = true) {key value : List Char}
    (h : data.lookup key = some value) : safe value = true :=
  List.all_eq_true.mp hsafe _ (mem_itemsAfter (List.not_mem_nil) h)

lemma ne_admin_of_safe {text : List Char} (h : safe text = true) : text ≠ admin := by
  rintro rfl
  exact absurd h (by decide)

lemma charset_plain : Plain charset := plain_of_all (by decide)

lemma plain_of_safe {text : List Char} (h : safe text = true) : Plain text := by
  intro c hc
  rw [safe, if_neg (ne_admin_of_safe h)] at h
  exact charset_plain c (of_decide_eq_true (List.all_eq_true.mp h c hc))

lemma admin_plain : Plain admin := plain_of_all (by decide)

lemma keys_plain {key : List Char} (h : key ∈ nameKey :: otherKeys) : Plain key := by
  have hall : (nameKey :: otherKeys).all (·.all isPlain) = true := by decide
  exact plain_of_all (List.all_eq_true.mp hall key h)

lemma lookup_of_mem_mapM {data : Form} {keys : List (List Char)} {info : Dict}
    (h : (keys.mapM fun key => do return (key, ← field data key)) = .ok info) :
    info.map Prod.fst = keys ∧ ∀ kv ∈ info, data.lookup kv.1 = some kv.2 := by
  induction keys generalizing info with
  | nil =>
    obtain rfl : [] = info := Except.ok.inj h
    exact ⟨rfl, nofun⟩
  | cons key keys ih =>
    rw [List.mapM_cons] at h
    obtain ⟨kv, hkv, h⟩ := exists_of_bind_eq_ok h
    obtain ⟨rest, hrest, hinfo⟩ := exists_of_bind_eq_ok h
    obtain ⟨value, hvalue, hpair⟩ := exists_of_bind_eq_ok hkv
    obtain rfl : kv :: rest = info := Except.ok.inj hinfo
    obtain rfl : (key, value) = kv := Except.ok.inj hpair
    obtain ⟨hkeys, hvalues⟩ := ih hrest
    have hlookup : data.lookup key = some value := by
      unfold field at hvalue
      split at hvalue
      · rename_i v hv
        rw [hv, Except.ok.inj hvalue]
      · cases hvalue
    refine ⟨by rw [List.map_cons, hkeys], ?_⟩
    intro p hp
    rcases List.mem_cons.mp hp with rfl | hp
    · exact hlookup
    · exact hvalues p hp

section Accepted

variable {data : Form} {info : Dict}

lemma Accepted.keys (h : Accepted data info) : info.map Prod.fst = nameKey :: otherKeys :=
  (lookup_of_mem_mapM h.1).1

lemma Accepted.safe (h : Accepted data info) {kv : List Char × List Char} (hkv : kv ∈ info) :
    safe kv.2 = true :=
  safe_of_lookup h.2 ((lookup_of_mem_mapM h.1).2 kv hkv)

lemma Accepted.plain (h : Accepted data info) : info.Plain := by
  intro kv hkv
  have hkey : kv.1 ∈ nameKey :: otherKeys := h.keys ▸ List.mem_map_of_mem hkv
  exact ⟨keys_plain hkey, plain_of_safe (h.safe hkv)⟩

lemma Accepted.nodup (h : Accepted data info) : (info.map Prod.fst).Nodup := by
  rw [h.keys]
  decide

/-- The dictionary begins with the name, since the source lists it first. -/
lemma Accepted.exists_cons (h : Accepted data info) :
    ∃ name others, info = (nameKey, name) :: others := by
  obtain ⟨kv, others, rfl, hkey, -⟩ := List.map_eq_cons_iff.mp h.keys
  exact ⟨kv.2, others, by rw [← hkey]⟩

end Accepted

/-! ## The two handlers -/

section Handlers

variable (server : Server)

/-- The JSON text of a dictionary, padded and cut into blocks. -/
def plainBlocks (info : Dict) : List Block :=
  Cbc.blocksOf blockSize ((encodeAscii (dumps info)).length / blockSize + 1)
    (Cbc.pad blockSize (encodeAscii (dumps info)))

lemma joined_plainBlocks (info : Dict) :
    Cbc.joined (plainBlocks info) = Cbc.pad blockSize (encodeAscii (dumps info)) :=
  Cbc.joined_pad (by decide) _

/-- What the server returns for a dictionary as its ciphertext. -/
def Server.ciphertext (iv : Block) (info : Dict) : List Byte :=
  Cbc.joined (Cbc.encrypt server.aes iv (plainBlocks info))

lemma encryptBytes_info (iv : Block) (info : Dict) :
    Cbc.encryptBytes server.aes iv.toList (Cbc.pad blockSize (encodeAscii (dumps info))) =
      .ok (server.ciphertext iv info) := by
  rw [← joined_plainBlocks, Cbc.encryptBytes_joined (by decide)]
  rfl

/-- A form gets its iv and a ciphertext back exactly if it is accepted. -/
lemma userInfo_post_iff {data : Form} {iv : Block} {ivHex dataHex : List Char} :
    server.userInfo .post data iv = .ok (.cipher ivHex dataHex) ↔
      ∃ info, Accepted data info ∧ ivHex = hex iv.toList ∧
        dataHex = hex (server.ciphertext iv info) := by
  cases hinfo : readInfo data with
  | error e =>
    simp only [Server.userInfo, if_true, hinfo, Accepted, reduceCtorEq, false_and, exists_false,
      iff_false]
    exact nofun
  | ok info =>
    cases hsafe : safeForm data with
    | false =>
      simp only [Server.userInfo, if_true, hinfo, ok_bind, hsafe, Accepted, Bool.not_false,
        Bool.false_eq_true, and_false, false_and, exists_false, iff_false]
      exact nofun
    | true =>
      simp only [Server.userInfo, if_true, hinfo, ok_bind, hsafe, Accepted, Bool.not_true,
        Bool.false_eq_true, if_false, and_true, encryptBytes_info, calling_ok, Except.ok.injEq,
        exists_eq_left']
      constructor
      · intro h
        cases h
        exact ⟨rfl, rfl⟩
      · rintro ⟨rfl, rfl⟩
        rfl

/-- The form that posts an iv and a ciphertext to `/decrypt`. -/
def decryptForm (iv data : List Char) : Form := [("iv".toList, iv), ("data".toList, data)]

/-- A ciphertext under an iv that need not be the server's. -/
lemma decryptedInfo_hex (iv : Block) (blocks : List Block) :
    server.decryptedInfo (decryptForm (hex iv.toList) (hex (Cbc.joined blocks))) =
      calling (Cbc.unpad blockSize (Cbc.joined (Cbc.decrypt server.aes iv blocks))) := by
  have hiv : (decryptForm (hex iv.toList) (hex (Cbc.joined blocks))).lookup "iv".toList =
      some (hex iv.toList) := rfl
  have hdata : (decryptForm (hex iv.toList) (hex (Cbc.joined blocks))).lookup "data".toList =
      some (hex (Cbc.joined blocks)) := rfl
  simp only [Server.decryptedInfo, hiv, hdata, fromhexField, fromhex_hex, calling_ok, ok_bind,
    Cbc.decryptBytes_joined (n := blockSize) (by decide)]

/-- Blocks that decrypt to the padded JSON text of a dictionary are read as this text. -/
lemma decryptedInfo_eq {iv : Block} {blocks : List Block} {info : Dict}
    (h : Cbc.decrypt server.aes iv blocks = plainBlocks info) :
    server.decryptedInfo (decryptForm (hex iv.toList) (hex (Cbc.joined blocks))) =
      .ok (encodeAscii (dumps info)) := by
  rw [decryptedInfo_hex, h, joined_plainBlocks, Cbc.unpad_pad (by decide) (by decide), calling_ok]

lemma choice_ok (draw : ℕ) : ∃ pic, choice server.opPics draw = .ok pic := by
  have hpos : 0 < server.opPics.length := List.length_pos_of_ne_nil server.opPics_ne
  exact ⟨_, getItem_ofNat (Nat.mod_lt draw hpos)⟩

/-- `/decrypt` on the JSON text of a plain dictionary looks at its name. -/
lemma decrypt_eq {server : Server} (hloads : InvertsDumps server.loads) {form : Form}
    {name : List Char} {others : Dict}
    (hform : server.decryptedInfo form = .ok (encodeAscii (dumps ((nameKey, name) :: others))))
    (hnodup : (((nameKey, name) :: others : Dict).map Prod.fst).Nodup)
    (hplain : Dict.Plain ((nameKey, name) :: others)) (draw : ℕ) :
    ∃ pic, server.decrypt form draw = .ok (if name = admin then .flag
      else .op (.string name) (pic.takeWhile (· ≠ '.')) ("static/op/".toList ++ pic)) := by
  obtain ⟨pic, hpic⟩ := choice_ok server draw
  have hname : nameOf (ofDict ((nameKey, name) :: others)) = .ok (.string name) := by
    simp [nameOf, ofDict]
  refine ⟨pic, ?_⟩
  simp only [Server.decrypt, hform, ok_bind, hloads _ hnodup hplain, calling_ok, hpic, hname,
    isAdmin, decide_eq_true_eq]
  split_ifs <;> rfl

end Handlers

end Whuctf.WhoAreYou
