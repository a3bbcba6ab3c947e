import Whuctf.Library.Blowfish
import Whuctf.PEShellcode.BlowfishEngine

/-!
# The block functions compute Blowfish

`Process_Block` works on bytes and walks a pointer through the subkeys, `Sub_Key_Encrypt` works on
words and indexes; both take the rounds in pairs and cross the words at the end.  For every content of
the tables both compute the Blowfish network on the block's big-endian words.

Nothing is asked of the tables, so the statement holds in the middle of a key schedule as well, where
the boxes are filled with encryptions under those filled before.
-/

namespace Whuctf.PEShellcode

open BlowfishEngine

/-- The entries of a subkey table, by index and without a bound. -/
def subkeys (p : Vector ULong 18) (i : ℕ) : ULong := p.toList.getD i 0

/-- The entries of the substitution boxes, by the number of the box and the byte that is looked up. -/
def boxes (s : Vector (Vector ULong 256) 4) (b : ℕ) (x : Byte) : ULong :=
  (s.toList.getD b (Vector.replicate 256 0)).get x.toFin

/-- The big-endian word at an address, which is how `Process_Block` reads a block. -/
def wordAt (m : Memory ℕ) (a : ℕ) : ULong :=
  Word32.ofBytes (m a) (m (a + 1)) (m (a + 2)) (m (a + 3))

/-- The four bytes of a word, the most significant first. -/
def bytesBE (x : ULong) : List Byte := (Word32.bytesLE x).reverse

lemma subkeys_eq (p : Vector ULong 18) {i : ℕ} (h : i < 18) : subkeys p i = p[i] := by
  rw [subkeys, List.getD_eq_getElem?_getD, List.getElem?_eq_getElem (by rwa [Vector.length_toList])]
  simp

lemma mixS_eq (s : Vector (Vector ULong 256) 4) : mixS s = Blowfish.roundFunction (boxes s) := by
  have hbox : ∀ b (hb : b < 4) (x : Byte), s[b][x.toNat] = boxes s b x := by
    intro b hb x
    rw [boxes, List.getD_eq_getElem?_getD, List.getElem?_eq_getElem (by rwa [Vector.length_toList])]
    simp only [Vector.getElem_toList, Option.getD_some]
    rfl
  funext x
  simp only [mixS, hbox]
  rfl

/-- The rounds of the program are the rounds of the network in pairs. -/
lemma rounds_eq (s : Vector (Vector ULong 256) 4) (p : Vector ULong 18) (x : ULong × ULong) :
    rounds s p x = (List.range 8).foldl
      (fun y i => Blowfish.doubleRound (mixS s) (subkeys p (2 * i)) (subkeys p (2 * i + 1)) y) x := by
  rw [rounds, Fin.foldl_eq_finRange_foldl, ← List.map_coe_finRange_eq_range, List.foldl_map]
  apply List.foldl_ext
  intro y i _
  rw [subkeys_eq p (by omega), subkeys_eq p (by omega)]
  rfl

/-- **Blowfish.**  For all tables, `Sub_Key_Encrypt` computes the network on a pair of words, and
`Process_Block` under `P_Encrypt` stores the bytes of what `Sub_Key_Encrypt` makes of the block's
big-endian words. -/
theorem block_functions_eq_network (e : BlowfishEngine) :
    (∀ left right : ULong, e.subKeyEncrypt left right =
      Blowfish.network (Blowfish.roundFunction (boxes e.bfS)) (subkeys e.pEncrypt) (left, right)) ∧
    ∀ (m : Memory ℕ) (plaintext cyphertext : ℕ),
      let x := e.subKeyEncrypt (wordAt m plaintext) (wordAt m (plaintext + 4))
      e.processBlock m plaintext cyphertext e.pEncrypt =
        m.write cyphertext (bytesBE x.1 ++ bytesBE x.2) := by
  constructor
  · intro left right
    rw [Blowfish.network_eq, ← mixS_eq, ← rounds_eq, subkeys_eq e.pEncrypt (i := 17) (by omega),
      subkeys_eq e.pEncrypt (i := 16) (by omega)]
    rfl
  · intro m plaintext cyphertext
    rfl

end Whuctf.PEShellcode
