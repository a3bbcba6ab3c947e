import Whuctf.Library.Feistel
import Whuctf.Library.Loop
import Whuctf.Library.Word32
import Whuctf.PEShellcode.Tables

/-!
# The Blowfish engine of `task_blowfish.cpp`

The class `BlowfishEngine` of the solution, function by function.  `unsigned long` is 32 bits
wide (MSVC for x86) and its additions wrap, so words are `BitVec 32`; pointers are natural
numbers into a `Memory ℕ`, with `0` the null pointer, and `int` lengths are integers.

The union `Int` overlays an `unsigned long` on four `unsigned char`s declared from `C3` to
`C0`; on a little-endian machine that makes `C0` the most significant byte, which is what
`charC0`, …, `charC3` and `longOfChars` say.

`Encrypt` and `Decrypt` have one body that differs in the subkey table only, and so have the
two round loops of `Process_Block` and `Sub_Key_Encrypt`: `crypt` and `doubleRound` are these
bodies.

`Process_Block` is a whitened Feistel network on the block's two big-endian words
(`processBlock_eq_write`), so it applies one permutation of the 8-byte blocks, `blockPerm`,
for whatever tables the engine holds.  The key schedule fills `P_Decrypt` as the reverse of
`P_Encrypt` (`submitKey_reversed`), which makes the permutation `Decrypt` applies the inverse
of the one `Encrypt` applies (`blockPerm_pDecrypt`).
-/

namespace Whuctf.PEShellcode

/-- `unsigned long` under MSVC for x86, which has 32 bits. -/
abbrev ULong := BitVec 32

/-! ## The union `Int` -/

/-- The member `Char.C0`: the most significant byte. -/
def charC0 (x : ULong) : Byte := Word32.byte x 3

/-- The member `Char.C1`. -/
def charC1 (x : ULong) : Byte := Word32.byte x 2

/-- The member `Char.C2`. -/
def charC2 (x : ULong) : Byte := Word32.byte x 1

/-- The member `Char.C3`: the least significant byte. -/
def charC3 (x : ULong) : Byte := Word32.byte x 0

/-- The member `Long`, once the four `Char` members are assigned. -/
def longOfChars (c0 c1 c2 c3 : Byte) : ULong := Word32.ofBytes c0 c1 c2 c3

/-! ## The engine -/

/-- The data members of `BlowfishEngine`: whether there is a key, the subkeys in both orders, and the
boxes. -/
structure BlowfishEngine where
  isKeyed : Bool
  pEncrypt : Vector ULong 18
  pDecrypt : Vector ULong 18
  bfS : Vector (Vector ULong 256) 4
  deriving DecidableEq

namespace BlowfishEngine

/-- The constructor: there is no key, and every table is value-initialised to zero. -/
def init : BlowfishEngine where
  isKeyed := false
  pEncrypt := Vector.replicate 18 0
  pDecrypt := Vector.replicate 18 0
  bfS := Vector.replicate 4 (Vector.replicate 256 0)

/-- The S-box expression both round loops share: an entry of each box, by the four bytes of the word. -/
def mixS (s : Vector (Vector ULong 256) 4) (x : ULong) : ULong :=
  ((s[0][(charC0 x).toNat] + s[1][(charC1 x).toNat]) ^^^ s[2][(charC2 x).toNat]) +
    s[3][(charC3 x).toNat]

/-- The body of both round loops: two rounds, under two consecutive subkeys. -/
def doubleRound (s : Vector (Vector ULong 256) 4) (p₀ p₁ : ULong) (x : ULong × ULong) :
    ULong × ULong :=
  let left := x.1 ^^^ p₀
  let right := x.2 ^^^ mixS s left
  let right := right ^^^ p₁
  let left := left ^^^ mixS s right
  (left, right)

/-- The round loop: sixteen rounds, two at a time, under the first sixteen subkeys. -/
def rounds (s : Vector (Vector ULong 256) 4) (p : Vector ULong 18) (x : ULong × ULong) :
    ULong × ULong :=
  Fin.foldl 8 (fun x (i : Fin 8) => doubleRound s p[2 * i.val] p[2 * i.val + 1] x) x

/-- `Sub_Key_Encrypt`: the pair it leaves in `left` and `right`, which the schedule stores as the next
two entries. -/
def subKeyEncrypt (e : BlowfishEngine) (left right : ULong) : ULong × ULong :=
  let x := rounds e.bfS e.pEncrypt (left, right)
  (x.2 ^^^ e.pEncrypt[17], x.1 ^^^ e.pEncrypt[16])

/-- `Process_Block`: the eight bytes at `plaintext` are read before any byte is stored. -/
def processBlock (e : BlowfishEngine) (m : Memory ℕ) (plaintext cyphertext : ℕ)
    (ptable : Vector ULong 18) : Memory ℕ :=
  let left := longOfChars (m plaintext) (m (plaintext + 1)) (m (plaintext + 2))
    (m (plaintext + 3))
  let right := longOfChars (m (plaintext + 4)) (m (plaintext + 5)) (m (plaintext + 6))
    (m (plaintext + 7))
  let x := rounds e.bfS ptable (left, right)
  let left := x.1 ^^^ ptable[16]
  let right := x.2 ^^^ ptable[17]
  m.write cyphertext
    [charC0 right, charC1 right, charC2 right, charC3 right,
      charC0 left, charC1 left, charC2 left, charC3 left]

/-! ## The key schedule

Three loops: the key into the subkeys, and then the subkeys and the boxes overwritten by encryptions of
a pair that is chained through both.  The second loop fills the two subkey tables at once, one from
either end. -/

/-- `key_ptr[j % length]`, where the remainder is that of C, which takes the sign of `j`. -/
def keyByte (m : Memory ℕ) (key : ℕ) (length : ℤ) (j : ℕ) : Byte :=
  m (key + ((j : ℤ).tmod length).toNat)

/-- The word `data` one turn of the first loop assembles, from the running index `j`. -/
def keyWord (m : Memory ℕ) (key : ℕ) (length : ℤ) (j : ℕ) : ULong :=
  let data : ULong := 0
  let data := (data <<< 8) ||| (keyByte m key length j).setWidth 32
  let data := (data <<< 8) ||| (keyByte m key length (j + 1)).setWidth 32
  let data := (data <<< 8) ||| (keyByte m key length (j + 2)).setWidth 32
  (data <<< 8) ||| (keyByte m key length (j + 3)).setWidth 32

/-- The first loop of `Submit_Key`: the key, repeated cyclically, is mixed into the subkeys. -/
def mixKey (m : Memory ℕ) (key : ℕ) (length : ℤ) (p : Vector ULong 18) : Vector ULong 18 :=
  Fin.foldl 18 (fun p (i : Fin 18) => p.set i (p[i] ^^^ keyWord m key length (4 * i.val))) p

/-- What the two schedule loops carry: the chained pair and the tables being overwritten. -/
structure Schedule where
  left : ULong
  right : ULong
  engine : BlowfishEngine

/-- One turn of the second loop: the next chained pair goes into `P_Encrypt` from the front
and into `P_Decrypt` from the back. -/
def scheduleP (st : Schedule) (k : Fin 9) : Schedule :=
  let x := st.engine.subKeyEncrypt st.left st.right
  { left := x.1
    right := x.2
    engine :=
      { st.engine with
        pEncrypt := (st.engine.pEncrypt.set (2 * k.val) x.1).set (2 * k.val + 1) x.2
        pDecrypt := (st.engine.pDecrypt.set (17 - 2 * k.val) x.1).set (16 - 2 * k.val) x.2 } }

/-- One turn of the inner third loop: the next chained pair goes into box `b`. -/
def scheduleS (b : Fin 4) (st : Schedule) (k : Fin 128) : Schedule :=
  let x := st.engine.subKeyEncrypt st.left st.right
  { left := x.1
    right := x.2
    engine :=
      { st.engine with
        bfS := st.engine.bfS.set b
          ((st.engine.bfS[b].set (2 * k.val) x.1).set (2 * k.val + 1) x.2) } }

/-- The second and third loops of `Submit_Key`, with the chained pair starting at zero. -/
def runSchedule (e : BlowfishEngine) : BlowfishEngine :=
  let st := Fin.foldl 9 scheduleP { left := 0, right := 0, engine := e }
  let st := Fin.foldl 4 (fun st b => Fin.foldl 128 (scheduleS b) st) st
  st.engine

/-- `Submit_Key`: the tables are set to their constants in any case, and without a key the engine is
left unkeyed; otherwise the key is mixed into the subkeys and the schedule runs. -/
def submitKey (e : BlowfishEngine) (m : Memory ℕ) (key : ℕ) (length : ℤ) : BlowfishEngine :=
  let e := { e with pEncrypt := pInit, pDecrypt := pInit, bfS := sInit }
  if key = 0 ∨ length = 0 then
    { e with isKeyed := false }
  else
    let e := { e with pEncrypt := mixKey m key length e.pEncrypt }
    { e.runSchedule with isKeyed := true }

/-! ## Encryption and decryption of a buffer -/

/-- `std::memmove`: the whole source is read before the first byte is stored. -/
def memmove (m : Memory ℕ) (dst src n : ℕ) : Memory ℕ :=
  m.write dst (m.read src n)

/-- The block loop: both pointers advance by one block after each call of `Process_Block`. -/
def cryptBlocks (e : BlowfishEngine) (ptable : Vector ULong 18) :
    ℕ → Memory ℕ → ℕ → ℕ → Memory ℕ × ℕ × ℕ
  | 0, m, src, dst => (m, src, dst)
  | blocks + 1, m, src, dst =>
      cryptBlocks e ptable blocks (e.processBlock m src dst ptable) (src + 8) (dst + 8)

/-- The body `Encrypt` and `Decrypt` share: the returned `int` and the memory left behind.  Nothing
happens for a null source or a length of zero; a null destination is the source; and without a key the
bytes are moved as they are. -/
def crypt (e : BlowfishEngine) (ptable : Vector ULong 18) (m : Memory ℕ) (src : ℕ)
    (length : ℤ) (dst : ℕ) : ℤ × Memory ℕ :=
  if src = 0 ∨ length = 0 then
    (0, m)
  else
    let dst := if dst = 0 then src else dst
    if e.isKeyed then
      let blocks := length.tdiv 8
      let st := cryptBlocks e ptable blocks.toNat m src dst
      let encrypted := blocks * 8
      let m' := if encrypted < length then
          memmove st.1 st.2.2 st.2.1 (length - encrypted).toNat
        else st.1
      (encrypted, m')
    else
      let m' := if src ≠ dst then memmove m dst src length.toNat else m
      (length, m')

/-- `Encrypt`: the shared body, under the subkeys in their order. -/
def encrypt (e : BlowfishEngine) (m : Memory ℕ) (plaintext : ℕ) (length : ℤ)
    (cyphertext : ℕ) : ℤ × Memory ℕ :=
  e.crypt e.pEncrypt m plaintext length cyphertext

/-- `Decrypt`: the shared body, under the reversed subkeys, so that the rounds are undone from the
last. -/
def decrypt (e : BlowfishEngine) (m : Memory ℕ) (cyphertext : ℕ) (length : ℤ)
    (plaintext : ℕ) : ℤ × Memory ℕ :=
  e.crypt e.pDecrypt m cyphertext length plaintext

end BlowfishEngine

open BlowfishEngine

/-! ## Blocks and words -/

/-- The eight bytes `Process_Block` reads or writes, in the order in which they lie in memory. -/
abbrev Block := Vector Byte 8

/-- The block stored at an address. -/
def blockAt (m : Memory ℕ) (a : ℕ) : Block :=
  #v[m a, m (a + 1), m (a + 2), m (a + 3), m (a + 4), m (a + 5), m (a + 6), m (a + 7)]

/-- The words `left` and `right` of a block, each with its first byte as the highest. -/
def wordsOfBlock (b : Block) : ULong × ULong :=
  (longOfChars b[0] b[1] b[2] b[3], longOfChars b[4] b[5] b[6] b[7])

/-- The block with the words `left` and `right`, taken apart as they were put together. -/
def blockOfWords (x : ULong × ULong) : Block :=
  #v[charC0 x.1, charC1 x.1, charC2 x.1, charC3 x.1,
    charC0 x.2, charC1 x.2, charC2 x.2, charC3 x.2]

/-- Packing through the union loses nothing, in either direction: blocks and pairs of words are the
same. -/
def blockEquiv : Block ≃ ULong × ULong where
  toFun := wordsOfBlock
  invFun := blockOfWords
  left_inv b := by
    apply Vector.ext
    intro i hi
    simp only [blockOfWords, wordsOfBlock, charC0, charC1, charC2, charC3, longOfChars,
      Word32.byte_ofBytes_zero, Word32.byte_ofBytes_one, Word32.byte_ofBytes_two,
      Word32.byte_ofBytes_three]
    rcases i with _ | _ | _ | _ | _ | _ | _ | _ | i <;> first | rfl | omega
  right_inv x := by
    simp [blockOfWords, wordsOfBlock, charC0, charC1, charC2, charC3, longOfChars]

/-! ## The block cipher as a Feistel network -/

/-- The subkeys of the inner rounds, without the first and the last, which only whiten. -/
def roundKeys (p : Vector ULong 18) : List ULong :=
  List.ofFn fun i : Fin 16 => p[i.val + 1]

/-- Two rounds of the code are two steps of the network, when the left word carries the
subkey of the next round. -/
lemma whiten_doubleRound (s : Vector (Vector ULong 256) 4) (p₀ p₁ p₂ : ULong)
    (x : ULong × ULong) :
    Feistel.whiten p₂ (doubleRound s p₀ p₁ x) =
      Feistel.step (mixS s) p₂ (Feistel.step (mixS s) p₁ (Feistel.whiten p₀ x)) := by
  simp [Feistel.whiten, Feistel.step, doubleRound]

/-- The sixteen rounds, seen as steps under the subkeys from the second on. -/
lemma whiten_rounds (s : Vector (Vector ULong 256) 4) (p : Vector ULong 18)
    (x : ULong × ULong) :
    Feistel.whiten p[16] (rounds s p x) =
      Feistel.steps (mixS s) (roundKeys p) (Feistel.whiten p[0] x) := by
  have hunroll : rounds s p x =
      doubleRound s p[14] p[15] (doubleRound s p[12] p[13] (doubleRound s p[10] p[11]
        (doubleRound s p[8] p[9] (doubleRound s p[6] p[7] (doubleRound s p[4] p[5]
          (doubleRound s p[2] p[3] (doubleRound s p[0] p[1] x))))))) := rfl
  have hkeys : roundKeys p = [p[1], p[2], p[3], p[4], p[5], p[6], p[7], p[8], p[9], p[10],
      p[11], p[12], p[13], p[14], p[15], p[16]] := rfl
  rw [hunroll, hkeys]
  simp only [whiten_doubleRound, Feistel.steps_cons, Feistel.steps_nil]

/-- The permutation of the blocks that `Process_Block` applies under a subkey table. -/
def blockPerm (e : BlowfishEngine) (p : Vector ULong 18) : Equiv.Perm Block :=
  blockEquiv.trans
    ((Feistel.networkPerm (mixS e.bfS) p[0] (roundKeys p) p[17]).trans blockEquiv.symm)

lemma blockPerm_apply (e : BlowfishEngine) (p : Vector ULong 18) (b : Block) :
    blockPerm e p b =
      blockOfWords
        ((rounds e.bfS p (wordsOfBlock b)).2 ^^^ p[17],
          (rounds e.bfS p (wordsOfBlock b)).1 ^^^ p[16]) := by
  have hsteps := whiten_rounds e.bfS p (wordsOfBlock b)
  have hnetwork : Feistel.network (mixS e.bfS) p[0] (roundKeys p) p[17] (wordsOfBlock b) =
      Feistel.whiten p[17] (Feistel.whiten p[16] (rounds e.bfS p (wordsOfBlock b))).swap := by
    rw [Feistel.network, ← hsteps]
  change blockOfWords (Feistel.network (mixS e.bfS) p[0] (roundKeys p) p[17]
    (wordsOfBlock b)) = _
  rw [hnetwork]
  rfl

/-- **`Process_Block`** stores the image of the source block under `blockPerm`. -/
lemma processBlock_eq_write (e : BlowfishEngine) (m : Memory ℕ) (src dst : ℕ)
    (p : Vector ULong 18) :
    e.processBlock m src dst p = m.write dst (blockPerm e p (blockAt m src)).toList := by
  rw [blockPerm_apply]
  rfl

/-! ## The decryption subkeys

That one table is the reverse of the other is an invariant of the second loop alone.  It fixes how the
positions written so far correspond, and the third loop does not touch them. -/

/-- The subkeys of the two directions are the reverse of one another. -/
def Reversed (e : BlowfishEngine) : Prop :=
  ∀ i : Fin 18, e.pDecrypt[17 - i.val] = e.pEncrypt[i]

/-- One turn of the subkey loop extends the reversal by two positions. -/
lemma scheduleP_reversed (st : Schedule) (k : Fin 9)
    (h : ∀ i : Fin 18, i.val < 2 * k.val → st.engine.pDecrypt[17 - i.val] = st.engine.pEncrypt[i]) :
    ∀ i : Fin 18, i.val < 2 * (k.val + 1) →
      (scheduleP st k).engine.pDecrypt[17 - i.val] = (scheduleP st k).engine.pEncrypt[i] := by
  intro i hi
  simp only [scheduleP, Fin.getElem_fin, Vector.getElem_set]
  by_cases hlow : i.val < 2 * k.val
  · have hold := h i hlow
    simp only [Fin.getElem_fin] at hold
    rw [if_neg (by omega), if_neg (by omega), if_neg (by omega), if_neg (by omega), hold]
  · by_cases heven : i.val = 2 * k.val
    · rw [if_neg (by omega), if_pos (by omega), if_neg (by omega), if_pos (by omega)]
    · rw [if_pos (by omega), if_pos (by omega)]

/-- The schedule loops reverse whatever tables they start from: behind them the subkeys for decryption
are those for encryption, backwards. -/
lemma runSchedule_reversed (e : BlowfishEngine) : Reversed e.runSchedule := by
  have hP : Reversed (Fin.foldl 9 scheduleP { left := 0, right := 0, engine := e }).engine := by
    have hloop := Loop.foldl_invariant
      (fun k (st : Schedule) => ∀ i : Fin 18, i.val < 2 * k →
        st.engine.pDecrypt[17 - i.val] = st.engine.pEncrypt[i])
      scheduleP { left := 0, right := 0, engine := e } (fun i hi => absurd hi (by omega))
      fun k st hst => scheduleP_reversed st k hst
    exact fun i => hloop i (by omega)
  -- the S-box loops leave both subkey tables alone
  exact Loop.foldl_invariant (fun _ (st : Schedule) => Reversed st.engine) _ _ hP
    fun b st hst => Loop.foldl_invariant (fun _ (st : Schedule) => Reversed st.engine)
      (scheduleS b) st hst fun _ _ h => h

/-- **The key schedule reverses.**  A key of positive length leaves the engine keyed, with
`P_Decrypt` the reverse of `P_Encrypt`. -/
lemma submitKey_reversed (e : BlowfishEngine) (m : Memory ℕ) {key : ℕ} (length : ℤ)
    (hkey : key ≠ 0) (hlength : length ≠ 0) :
    (submitKey e m key length).isKeyed = true ∧ Reversed (submitKey e m key length) := by
  have hrev := runSchedule_reversed
    { e with pEncrypt := mixKey m key length pInit, pDecrypt := pInit, bfS := sInit }
  rw [submitKey, if_neg (by simp [hkey, hlength])]
  dsimp only
  generalize runSchedule _ = scheduled at hrev ⊢
  exact ⟨rfl, fun i => hrev i⟩

lemma roundKeys_reversed {e : BlowfishEngine} (h : Reversed e) :
    roundKeys e.pDecrypt = (roundKeys e.pEncrypt).reverse := by
  refine List.ext_getElem (by simp [roundKeys]) fun i h₁ h₂ => ?_
  have hi : i < 16 := by simpa [roundKeys] using h₁
  have hrev := h ⟨16 - i, by omega⟩
  simp only [Fin.getElem_fin] at hrev
  simp only [roundKeys, List.getElem_ofFn, List.getElem_reverse, List.length_ofFn]
  simp only [show 17 - (16 - i) = i + 1 by omega] at hrev
  simp only [show 16 - 1 - i + 1 = 16 - i by omega, hrev]

/-- On a reversed engine the two directions apply inverse permutations. -/
lemma blockPerm_pDecrypt {e : BlowfishEngine} (h : Reversed e) :
    blockPerm e e.pDecrypt = (blockPerm e e.pEncrypt).symm := by
  have h0 : e.pDecrypt[0] = e.pEncrypt[17] := h 17
  have h17 : e.pDecrypt[17] = e.pEncrypt[0] := h 0
  apply Equiv.ext
  intro b
  change blockEquiv.symm (Feistel.network (mixS e.bfS) e.pDecrypt[0] (roundKeys e.pDecrypt)
    e.pDecrypt[17] (blockEquiv b)) = _
  rw [h0, h17, roundKeys_reversed h]
  rfl

end Whuctf.PEShellcode
