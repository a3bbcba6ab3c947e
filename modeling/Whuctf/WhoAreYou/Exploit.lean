import Whuctf.WhoAreYou.App

/-!
# The exploit of who-are-you

`exp.py` registers a name of five characters and changes the iv that it gets back, so that the first
block of the JSON text decrypts to one with the name `admin`.  The JSON text begins with the quoted name,
and up to the closing quote this takes exactly one block when the name has five characters
(`plainBlocks_name`): the other blocks do not depend on the name.

So the server returns the flag for the changed iv and never for the one it has issued
(`flag_by_tampering`).
-/

namespace Whuctf.WhoAreYou

open Python Utf8 Json

/-! ## The program -/

/-- `result[i] ^= b`, with the exception for an index outside. -/
def xorStep (result : List Byte) (bi : Byte × ℕ) : Except PyError (List Byte) := do
  setItem result bi.2 ((← getItem result bi.2) ^^^ bi.1)

/-- `xor`: the bytes of `b1`, with those of `b2` xored into the first ones. -/
def xor (b1 b2 : List Byte) : Except PyError (List Byte) := b2.zipIdx.foldlM xorStep b1

/-- `json.dumps(payload)[:AES.block_size]`, the part of the JSON text in the first block. -/
def firstBlock (payload : Dict) : List Char := (dumps payload).take blockSize

/-- `'{"name": "admin"'`, sixteen characters, as the first block is to read. -/
def adminBlock : List Char := "\x7b\"name\": \"admin\"".toList

/-- The iv that `craft_iv` posts: the issued one, with the first block of the payload and the wanted
one mixed in. -/
def craftIv (payload : Dict) (iv : List Char) : Except PyError (List Char) := do
  let bytesIv ← fromhex iv
  if bytesIv.length ≠ blockSize then throw .assertionError
  let newBytesIv1 ← xor bytesIv (encodeAscii (firstBlock payload))
  let payload := payload.set nameKey admin
  if firstBlock payload ≠ adminBlock then throw .assertionError
  let newBytesIv2 ← xor newBytesIv1 (encodeAscii (firstBlock payload))
  return hex newBytesIv2

/-- The payload that the script posts first, with a name of five characters. -/
def payload : Dict :=
  (nameKey, List.replicate admin.length 'x') :: otherKeys.map fun key => (key, [])

/-- `get_encrypt_data`: the values on the page that answers the payload. -/
def getEncryptData (server : Server) (iv : Block) : Except WebError (List Char × List Char) := do
  match ← server.userInfo .post payload iv with
  | .cipher iv cipher => return (iv, cipher)
  -- no other answer to a form has an input with a value
  | _ => .error (.python .indexError)

/-- The script: what it prints is the text of this response. -/
def exploit (server : Server) (iv : Block) (draw : ℕ) : Except WebError Response := do
  let (iv, data) ← getEncryptData server iv
  let newIv ← calling (craftIv payload iv)
  server.decrypt (decryptForm newIv data) draw

/-! ## The xor of blocks -/

lemma xorStep_append (done todo : List Byte) (a b : Byte) :
    xorStep (done ++ a :: todo) (b, done.length) = .ok ((done ++ [a ^^^ b]) ++ todo) := by
  have hi : done.length < (done ++ a :: todo).length := by simp
  have hget : (done ++ a :: todo)[done.length] = a := by simp
  rw [xorStep, getItem_ofNat hi, ok_bind, setItem_ofNat hi, hget]
  simp

/-- The pass for the bytes from `done.length` on leaves the bytes before as they are. -/
lemma foldlM_xorStep (done todo mask : List Byte) (h : mask.length = todo.length) :
    (mask.zipIdx done.length).foldlM xorStep (done ++ todo) =
      .ok (done ++ List.zipWith (· ^^^ ·) todo mask) := by
  induction mask generalizing done todo with
  | nil =>
    obtain rfl : todo = [] := List.eq_nil_of_length_eq_zero h.symm
    rfl
  | cons b mask ih =>
    cases todo with
    | nil => cases h
    | cons a todo =>
      have hrest := ih (done ++ [a ^^^ b]) todo (Nat.succ.inj h)
      rw [List.length_append, List.length_singleton] at hrest
      rw [List.zipIdx_cons, List.foldlM_cons, xorStep_append, ok_bind, hrest]
      simp

/-- On two blocks, which have one length, the function is their xor. -/
lemma xor_toList (v w : Block) : xor v.toList w.toList = .ok (v ^^^ w).toList := by
  rw [Cbc.toList_xor]
  exact foldlM_xorStep [] v.toList w.toList (by simp)

/-! ## The first block

The text of the dictionary is cut behind the quote that ends the name.  With five characters in the
name the cut is where the first block ends, so what follows is cut into the same blocks for every such
name. -/

section FirstBlock

/-- The JSON text up to the name, which is part of the first block. -/
def beforeName : List Char := "\x7b\"name\": \"".toList

lemma beforeName_eq : beforeName = '\x7b' :: '"' :: (nameKey ++ ['"', ':', ' ', '"']) := rfl

/-- The JSON text up to the quote after the name. -/
def nameBlock (name : List Char) : List Char := beforeName ++ (name ++ ['"'])

lemma nameBlock_admin : nameBlock admin = adminBlock := rfl

lemma length_nameBlock {name : List Char} (h : name.length = 5) :
    (nameBlock name).length = blockSize := by
  have hbefore : beforeName.length = 10 := rfl
  rw [nameBlock, List.length_append, List.length_append, hbefore, h, List.length_singleton]

/-- The JSON text after the name: the other members, and the brace at the end. -/
def afterName (others : Dict) : List Char := more others ++ ['\x7d']

lemma dumps_name {name : List Char} (h : Plain name) (others : Dict) :
    dumps ((nameKey, name) :: others) = nameBlock name ++ afterName others := by
  rw [dumps_cons, member_plain (keys_plain List.mem_cons_self) h, nameBlock, beforeName_eq, afterName]
  simp only [List.append_assoc, List.cons_append, List.nil_append]

lemma exists_block {bs : List Byte} (h : bs.length = blockSize) : ∃ v : Block, v.toList = bs :=
  ⟨Vector.mk bs.toArray h, rfl⟩

variable {name : List Char} {v : Block}

lemma firstBlock_name (hplain : Plain name) (hlength : name.length = 5) (others : Dict) :
    firstBlock ((nameKey, name) :: others) = nameBlock name := by
  rw [firstBlock, dumps_name hplain, List.take_left' (length_nameBlock hlength)]

/-- Only the first block depends on the name, when the text up to the quote behind the name fills that
block. -/
lemma plainBlocks_name (hplain : Plain name) (hv : v.toList = encodeAscii (nameBlock name))
    (others : Dict) :
    plainBlocks ((nameKey, name) :: others) =
      v :: Cbc.blocksOf blockSize ((afterName others).length / blockSize + 1)
        (Cbc.pad blockSize (encodeAscii (afterName others))) := by
  have htext : encodeAscii (dumps ((nameKey, name) :: others)) =
      v.toList ++ encodeAscii (afterName others) := by
    rw [dumps_name hplain, encodeAscii, List.map_append, hv]
    rfl
  have hcount : (v.toList ++ encodeAscii (afterName others)).length / blockSize =
      (afterName others).length / blockSize + 1 := by
    rw [List.length_append, v.length_toList, encodeAscii, List.length_map,
      Nat.add_div_left _ (by decide)]
  rw [plainBlocks, htext, hcount, Cbc.pad_append v.length_toList, Cbc.blocksOf_append]

/-- The iv that the script posts is the issued one, xored with the first block and with its
replacement. -/
lemma craftIv_eq {w iv : Block} (hplain : Plain name) (hlength : name.length = 5)
    (hv : v.toList = encodeAscii (nameBlock name))
    (hw : w.toList = encodeAscii (nameBlock admin)) (others : Dict) :
    craftIv ((nameKey, name) :: others) (hex iv.toList) = .ok (hex (iv ^^^ v ^^^ w).toList) := by
  have hset : Dict.set nameKey admin ((nameKey, name) :: others) = (nameKey, admin) :: others := by
    rw [Dict.set, if_pos rfl]
  have hiv : iv.toList.length = blockSize := iv.length_toList
  simp only [craftIv, fromhex_hex, ok_bind, hiv, hset, firstBlock_name hplain hlength,
    firstBlock_name admin_plain rfl, nameBlock_admin, ne_eq, not_true_eq_false, if_false, ← hv, xor_toList]
  rw [← nameBlock_admin, ← hw, xor_toList]
  rfl

end FirstBlock

/-! ## The flag

The two halves of the theorem are the two ivs.  Under the issued one the dictionary comes back, with a
name that is not `admin` since the form was safe; under the other one it comes back with the name
replaced. -/

section Flag

variable {server : Server} {data : Form} {name : List Char} {others : Dict}

/-- With the issued iv, `/decrypt` finds the name of the form, which is not `admin`. -/
lemma decrypt_unchanged (hloads : InvertsDumps server.loads)
    (h : Accepted data ((nameKey, name) :: others)) (iv : Block) (draw : ℕ) :
    server.decrypt (decryptForm (hex iv.toList)
      (hex (server.ciphertext iv ((nameKey, name) :: others)))) draw ≠ .ok .flag := by
  have hblocks : Cbc.decrypt server.aes iv
      (Cbc.encrypt server.aes iv (plainBlocks ((nameKey, name) :: others))) =
        plainBlocks ((nameKey, name) :: others) := Cbc.decrypt_encrypt _
  have hform := decryptedInfo_eq server hblocks
  obtain ⟨pic, hpage⟩ := decrypt_eq hloads hform h.nodup h.plain draw
  have hname : name ≠ admin := ne_admin_of_safe (h.safe List.mem_cons_self)
  rw [Server.ciphertext, hpage, if_neg hname]
  exact nofun

/-- With the iv of the script, the JSON text is the one for the name `admin`. -/
lemma decrypt_crafted (hloads : InvertsDumps server.loads)
    (h : Accepted data ((nameKey, name) :: others)) (hlength : name.length = 5) (iv : Block) :
    ∃ newIv, craftIv ((nameKey, name) :: others) (hex iv.toList) = .ok newIv ∧
      server.decryptedInfo (decryptForm newIv
        (hex (server.ciphertext iv ((nameKey, name) :: others)))) =
          .ok (encodeAscii (dumps ((nameKey, admin) :: others))) ∧
      ∀ draw, server.decrypt (decryptForm newIv
        (hex (server.ciphertext iv ((nameKey, name) :: others)))) draw = .ok .flag := by
  have hplain : Plain name := (h.plain _ List.mem_cons_self).2
  have hblock : ∀ name : List Char, name.length = 5 →
      ∃ v : Block, v.toList = encodeAscii (nameBlock name) := by
    intro name hname
    exact exists_block (by rw [encodeAscii, List.length_map, length_nameBlock hname])
  obtain ⟨v, hv⟩ := hblock name hlength
  obtain ⟨w, hw⟩ := hblock admin rfl
  have hblocks : Cbc.decrypt server.aes (iv ^^^ v ^^^ w)
      (Cbc.encrypt server.aes iv (plainBlocks ((nameKey, name) :: others))) =
        plainBlocks ((nameKey, admin) :: others) := by
    rw [plainBlocks_name hplain hv, Cbc.decrypt_replaced, plainBlocks_name admin_plain hw]
  have hform := decryptedInfo_eq server hblocks
  have hnew : Dict.Plain ((nameKey, admin) :: others) := by
    intro kv hkv
    rcases List.mem_cons.mp hkv with rfl | hkv
    · exact ⟨(h.plain _ List.mem_cons_self).1, admin_plain⟩
    · exact h.plain kv (List.mem_cons_of_mem _ hkv)
  refine ⟨_, craftIv_eq hplain hlength hv hw others, hform, ?_⟩
  intro draw
  obtain ⟨pic, hpage⟩ := decrypt_eq hloads hform h.nodup hnew draw
  rw [Server.ciphertext, hpage, if_pos rfl]

lemma payload_accepted : Accepted payload payload := ⟨rfl, by decide⟩

lemma payload_issued (server : Server) (iv : Block) :
    server.userInfo .post payload iv =
      .ok (.cipher (hex iv.toList) (hex (server.ciphertext iv payload))) :=
  (userInfo_post_iff server).mpr ⟨payload, payload_accepted, rfl, rfl⟩

/-- **The flag is returned for a changed iv only.**  Whatever the key and the iv, `/decrypt` never
returns the flag for what `/` has issued to a form with a name of five characters, and it does for the
same data under the iv that the script computes: the JSON text is then the same with the name
replaced. -/
theorem flag_by_tampering (server : Server) (hloads : InvertsDumps server.loads) (data : Form)
    (iv : Block) (ivHex dataHex : List Char)
    (hissued : server.userInfo .post data iv = .ok (.cipher ivHex dataHex)) (name : List Char)
    (hname : data.lookup nameKey = some name) (hlength : name.length = 5) :
    (∀ draw, server.decrypt (decryptForm ivHex dataHex) draw ≠ .ok .flag) ∧
    ∃ info newIv before after, readInfo data = .ok info ∧ craftIv info ivHex = .ok newIv ∧
      dumps info = before ++ (name ++ after) ∧
      server.decryptedInfo (decryptForm ivHex dataHex) = .ok (encodeAscii (before ++ (name ++ after))) ∧
      server.decryptedInfo (decryptForm newIv dataHex) =
        .ok (encodeAscii (before ++ (admin ++ after))) ∧
      before ++ (admin ++ after) = dumps (info.set nameKey admin) ∧
      ∀ draw, server.decrypt (decryptForm newIv dataHex) draw = .ok .flag := by
  obtain ⟨info, h, rfl, rfl⟩ := (userInfo_post_iff server).mp hissued
  obtain ⟨name', others, rfl⟩ := h.exists_cons
  obtain rfl : name' = name := by
    have hlookup := (lookup_of_mem_mapM h.1).2 (nameKey, name') List.mem_cons_self
    exact Option.some.inj (hlookup.symm.trans hname)
  have hplain : Plain name' := (h.plain _ List.mem_cons_self).2
  have hset : Dict.set nameKey admin ((nameKey, name') :: others) = (nameKey, admin) :: others := by
    rw [Dict.set, if_pos rfl]
  have htext : ∀ name, Plain name → dumps ((nameKey, name) :: others) =
      beforeName ++ (name ++ ('"' :: afterName others)) := by
    intro name hplain
    rw [dumps_name hplain, nameBlock, List.append_assoc, List.append_assoc, List.singleton_append]
  obtain ⟨newIv, hcraft, hdecrypted, hflag⟩ := decrypt_crafted hloads h hlength iv
  refine ⟨decrypt_unchanged hloads h iv, _, newIv, beforeName, '"' :: afterName others, h.1, hcraft,
    htext name' hplain, ?_, ?_, ?_, hflag⟩
  · rw [← htext name' hplain]
    exact decryptedInfo_eq server (Cbc.decrypt_encrypt _)
  · rw [← htext admin admin_plain]
    exact hdecrypted
  · rw [hset, htext admin admin_plain]

/-- A server with a xor in place of AES, which is a permutation of the blocks as well. -/
def maskServer : Server where
  aes := Function.Involutive.toPerm (· ^^^ Vector.replicate blockSize 0x5a#8) fun b =>
    xor_cancel_right b _
  loads := loadsFlat
  opPics := ["琴.jpg".toList]
  opPics_ne := List.cons_ne_nil _ _

/-- The payload of the script on that server: the forged iv is found, and the answer to it is the flag.
-/
theorem flag_by_tampering_payload :
    ∃ newIv, craftIv payload (hex (0 : Block).toList) = .ok newIv ∧
      maskServer.decrypt (decryptForm newIv (hex (maskServer.ciphertext 0 payload))) 0 =
        .ok .flag := by
  obtain ⟨-, info, newIv, _, _, hinfo, hcraft, -, -, -, -, hflag⟩ :=
    flag_by_tampering maskServer loadsFlat_invertsDumps payload 0 _ _ (payload_issued maskServer 0) _
      rfl rfl
  obtain rfl : payload = info := Except.ok.inj (payload_accepted.1.symm.trans hinfo)
  exact ⟨newIv, hcraft, hflag 0⟩

/-- The script prints the flag, whatever the key, the iv and the picture. -/
theorem exploit_returns_flag (hloads : InvertsDumps server.loads) (iv : Block) (draw : ℕ) :
    exploit server iv draw = .ok .flag := by
  have hdata : getEncryptData server iv =
      .ok (hex iv.toList, hex (server.ciphertext iv payload)) := by
    rw [getEncryptData, payload_issued, ok_bind]
    rfl
  obtain ⟨newIv, hcraft, -, hflag⟩ := decrypt_crafted hloads payload_accepted rfl iv
  rw [exploit, hdata, ok_bind]
  simp only [payload] at hcraft ⊢
  rw [hcraft, calling_ok, ok_bind]
  exact hflag draw

end Flag

end Whuctf.WhoAreYou
