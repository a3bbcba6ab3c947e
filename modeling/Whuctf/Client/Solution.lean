import Mathlib.Tactic.FinCases
import Whuctf.Client.Cipher
import Whuctf.Library.Loop

/-!
# The generator of the answer and its solution

`code.c` turns the flag into the answer that the check-in program compares with, and `std.c` turns
the answer back.  Both work in place on the four blocks of a 32-byte array, one cipher call each,
and mask every byte before or after.

Each program acts on the array block by block and leaves the rest of memory alone (`Acts`), so two
programs run one after the other act by the composed functions (`Acts.trans`), and a program that
acts by the identity leaves memory as it was (`Acts.eq_of_id`).

A key is read again in every call, so it matters that the array is apart from it: what a program acts
by depends on the key it was given at the start (`Acts.key_eq`).  Both programs are short enough to be
put together from their calls, one lemma for the mask and one for each direction of the cipher.
-/

namespace Whuctf.Client

variable {A : Type*} [AddMonoidWithOne A] [DecidableEq A]

/-! ## The programs -/

/-- `encrypt` of `code.c` and `std.c`, the text of `myencrypt`; key and block lie in the same memory. -/
def encrypt (m : Memory A) (v key : A) : Memory A := myencrypt m v m key

/-- `decrypt` of `code.c` and `std.c`, the text of `mydecrypt`; key and block lie in the same memory. -/
def decrypt (m : Memory A) (v key : A) : Memory A := mydecrypt m v m key

/-- `for (int i = 0; i < 32; ++i) p[i] ^= 0x1F;`. -/
def maskBytes (m : Memory A) (p : A) : Memory A :=
  Fin.foldl 32 (fun m i => Function.update m (p + (i.val : A)) (m (p + (i.val : A)) ^^^ 0x1F#8)) m

/-- `main` of `code.c`: the memory at the loop that prints the array.  The flag is masked, its first
two blocks are encrypted and the other two decrypted. -/
def Code.main (m : Memory A) (flag key : A) : Memory A :=
  let m := maskBytes m flag
  let m := encrypt m (flag + ((0 : ℕ) : A)) key
  let m := encrypt m (flag + ((8 : ℕ) : A)) key
  let m := decrypt m (flag + ((16 : ℕ) : A)) key
  decrypt m (flag + ((24 : ℕ) : A)) key

/-- `main` of `std.c`: the memory at the call that prints the array.  The answer goes through the
inverse of each step, the mask last. -/
def Std.main (m : Memory A) (answer key : A) : Memory A :=
  let m := decrypt m (answer + ((0 : ℕ) : A)) key
  let m := decrypt m (answer + ((8 : ℕ) : A)) key
  let m := encrypt m (answer + ((16 : ℕ) : A)) key
  let m := encrypt m (answer + ((24 : ℕ) : A)) key
  maskBytes m answer

/-! ## Acting block by block

`Acts` records four functions, one for each block, and that nothing else has changed.  It composes, and
so the order in which a program visits the blocks drops out of what is said of it. -/

/-- A block, as its two words. -/
abbrev Block := BitVec 32 × BitVec 32

/-- The address of block `i` of the array at `p`; the array has four blocks of eight bytes. -/
def blockAt (p : A) (i : Fin 4) : A := p + ((8 * i.val : ℕ) : A)

/-- From `m` to `m'`, block `i` of the array at `p` went through `fs i` and nothing outside the
array changed. -/
structure Acts (p : A) (fs : Fin 4 → Block → Block) (m m' : Memory A) : Prop where
  block : ∀ i, loadBlock m' (blockAt p i) = fs i (loadBlock m (blockAt p i))
  frame : ∀ x, (∀ j : ℕ, j < 32 → p + (j : A) ≠ x) → m' x = m x

section Acts

variable {p : A} {fs gs : Fin 4 → Block → Block} {m m' m'' : Memory A}

omit [DecidableEq A]

lemma Acts.trans (h : Acts p fs m m') (h' : Acts p gs m' m'') :
    Acts p (fun i => gs i ∘ fs i) m m'' :=
  ⟨fun i => by rw [h'.block, h.block]; rfl, fun x hx => by rw [h'.frame x hx, h.frame x hx]⟩

lemma Acts.congr (h : Acts p fs m m') (heq : ∀ i x, gs i x = fs i x) : Acts p gs m m' :=
  ⟨fun i => by rw [heq, h.block], h.frame⟩

lemma Acts.refl (p : A) (m : Memory A) : Acts p (fun _ => id) m m :=
  ⟨fun _ => rfl, fun _ _ => rfl⟩

/-- The bytes of an array are the bytes of its blocks, so memory is as before when every block is. -/
lemma Acts.eq_of_id (h : Acts p fs m m') (hid : ∀ i x, fs i x = x) : m' = m := by
  funext x
  by_cases hx : ∀ j : ℕ, j < 32 → p + (j : A) ≠ x
  · exact h.frame x hx
  · push Not at hx
    obtain ⟨j, hj, rfl⟩ := hx
    have hsame : m'.read (blockAt p ⟨j / 8, by omega⟩) 8 =
        m.read (blockAt p ⟨j / 8, by omega⟩) 8 := by
      rw [← blockBytes_loadBlock, ← blockBytes_loadBlock, h.block, hid]
    have hbyte := Memory.apply_eq_of_read_eq hsame (i := j % 8) (Nat.mod_lt j (by decide))
    rw [blockAt, add_assoc, ← Nat.cast_add, Nat.div_add_mod] at hbyte
    exact hbyte

/-- A key apart from the array stays as it was, so that each block is ciphered under the key there was
at the start. -/
lemma Acts.key_eq (h : Acts p fs m m') {key : A} (hkey : Memory.Apart p 32 key 16) :
    m'.read key 16 = m.read key 16 :=
  Memory.read_congr fun j hj => h.frame _ fun i hi => hkey i hi j hj

end Acts

/-! ## The cipher calls and the mask -/

section Calls

variable {p key : A} (hdist : Memory.OffsetsDistinct p 32) (m : Memory A)
include hdist

/-- Rewriting one block by a function acts by this function on that block, and by the identity on the
others. -/
lemma acts_storeBlock (f : Block → Block) (i : Fin 4) :
    Acts p (Function.update (fun _ => id) i f) m
      (storeBlock m (blockAt p i) (f (loadBlock m (blockAt p i)))) := by
  constructor
  · intro k
    by_cases hk : k = i
    · subst hk
      have hself : Memory.OffsetsDistinct (blockAt p k) 8 := by
        intro a ha b hb hab
        rw [blockAt, add_assoc, add_assoc, ← Nat.cast_add, ← Nat.cast_add] at hab
        have := hdist _ (by omega) _ (by omega) hab
        omega
      rw [loadBlock_storeBlock_self _ _ _ hself, Function.update_self]
    · have hne : k.val ≠ i.val := fun h => hk (Fin.ext h)
      have hapart : Memory.Apart (blockAt p i) 8 (blockAt p k) 8 :=
        hdist.apart (by omega) (by omega) (by omega)
      rw [Function.update_of_ne hk, id]
      exact loadBlock_congr (read_storeBlock_of_apart m _ _ _ hapart)
  · intro x hx
    apply Memory.write_apply_of_ne
    intro j hj
    have hj8 : j < 8 := hj
    rw [blockAt, add_assoc, ← Nat.cast_add]
    exact hx _ (by omega)

/-- What the mask does to a block: it xors each of its eight bytes with `0x1F`. -/
def maskBlock (x : Block) : Block := (x.1 ^^^ 0x1F1F1F1F#32, x.2 ^^^ 0x1F1F1F1F#32)

/-- Every byte of the array is masked, and no other, since its thirty-two addresses differ. -/
lemma maskBytes_apply :
    (∀ j : ℕ, j < 32 → maskBytes m p (p + (j : A)) = m (p + (j : A)) ^^^ 0x1F#8) ∧
      ∀ x, (∀ j : ℕ, j < 32 → p + (j : A) ≠ x) → maskBytes m p x = m x := by
  have hloop := Loop.foldl_invariant
    (fun n (m' : Memory A) =>
      (∀ j : ℕ, j < n → m' (p + (j : A)) = m (p + (j : A)) ^^^ 0x1F#8) ∧
        ∀ x, (∀ j : ℕ, j < n → p + (j : A) ≠ x) → m' x = m x)
    (fun m' (i : Fin 32) =>
      Function.update m' (p + (i.val : A)) (m' (p + (i.val : A)) ^^^ 0x1F#8))
    m ⟨fun _ h => absurd h (Nat.not_lt_zero _), fun _ _ => rfl⟩ ?_
  · exact hloop
  rintro i m' ⟨hdone, hrest⟩
  constructor
  · intro j hj
    by_cases hij : j = i.val
    · subst hij
      have hnot : ∀ k : ℕ, k < i.val → p + (k : A) ≠ p + (i.val : A) := fun k hk heq =>
        absurd (hdist k (by omega) i.val i.isLt heq) (by omega)
      rw [Function.update_self, hrest _ hnot]
    · have hne : p + (j : A) ≠ p + (i.val : A) := fun heq =>
        hij (hdist j (by omega) i.val i.isLt heq)
      rw [Function.update_of_ne hne, hdone j (by omega)]
  · intro x hx
    rw [Function.update_of_ne (hx i.val (by omega)).symm, hrest x fun j hj => hx j (by omega)]

lemma acts_maskBytes : Acts p (fun _ => maskBlock) m (maskBytes m p) := by
  obtain ⟨hmask, hframe⟩ := maskBytes_apply hdist m
  refine ⟨fun i => ?_, hframe⟩
  have hword : ∀ k : ℕ, k + 4 ≤ 32 →
      (maskBytes m p).load32 (p + (k : A)) = m.load32 (p + (k : A)) ^^^ 0x1F1F1F1F#32 := by
    intro k hk
    have hconst : 0x1F1F1F1F#32 = Word32.ofBytes 0x1F#8 0x1F#8 0x1F#8 0x1F#8 := by decide
    simp only [Memory.load32, add_assoc, ← Nat.cast_add]
    rw [hmask _ (by omega), hmask _ (by omega), hmask _ (by omega), hmask _ (by omega),
      Word32.ofBytes_xor, hconst]
  refine Prod.ext (hword _ (by omega)) ?_
  simp only [loadBlock, blockAt, add_assoc, ← Nat.cast_add]
  exact hword _ (by omega)

variable (hkey : Memory.Apart p 32 key 16)
include hkey

/-- An encryption call acts on its block, under the key it was given at the start. -/
lemma acts_encrypt {fs : Fin 4 → Block → Block} {m₀ : Memory A} (h : Acts p fs m₀ m) (i : Fin 4) :
    Acts p (Function.update (fun _ => id) i (encryptWords (keyAt m₀ key))) m
      (encrypt m (blockAt p i) key) := by
  rw [encrypt, myencrypt, encryptWords_congr (keyAt_congr (h.key_eq hkey))]
  exact acts_storeBlock hdist m _ i

/-- A decryption call acts on its block, under the key it was given at the start. -/
lemma acts_decrypt {fs : Fin 4 → Block → Block} {m₀ : Memory A} (h : Acts p fs m₀ m) (i : Fin 4) :
    Acts p (Function.update (fun _ => id) i (decryptWords (keyAt m₀ key))) m
      (decrypt m (blockAt p i) key) := by
  rw [decrypt, mydecrypt, decryptWords_congr (keyAt_congr (h.key_eq hkey))]
  exact acts_storeBlock hdist m _ i

/-- `code.c` masks every block, encrypts the first two and decrypts the others. -/
lemma acts_codeMain :
    Acts p (fun i x => if i.val < 2 then encryptWords (keyAt m key) (maskBlock x)
      else decryptWords (keyAt m key) (maskBlock x)) m (Code.main m p key) := by
  have h₀ := acts_maskBytes hdist m
  have h₁ := h₀.trans (acts_encrypt hdist _ hkey h₀ 0)
  have h₂ := h₁.trans (acts_encrypt hdist _ hkey h₁ 1)
  have h₃ := h₂.trans (acts_decrypt hdist _ hkey h₂ 2)
  have h₄ := h₃.trans (acts_decrypt hdist _ hkey h₃ 3)
  apply h₄.congr
  intro i x
  fin_cases i <;> simp [Function.update]

/-- `std.c` decrypts the first two blocks, encrypts the others and masks every block. -/
lemma acts_stdMain :
    Acts p (fun i x => if i.val < 2 then maskBlock (decryptWords (keyAt m key) x)
      else maskBlock (encryptWords (keyAt m key) x)) m (Std.main m p key) := by
  have h₀ := Acts.refl p m
  have h₁ := h₀.trans (acts_decrypt hdist _ hkey h₀ 0)
  have h₂ := h₁.trans (acts_decrypt hdist _ hkey h₁ 1)
  have h₃ := h₂.trans (acts_encrypt hdist _ hkey h₂ 2)
  have h₄ := h₃.trans (acts_encrypt hdist _ hkey h₃ 3)
  refine (h₄.trans (acts_maskBytes hdist _)).congr fun i x => ?_
  fin_cases i <;> simp [Function.update]

end Calls

/-! ## The solution inverts the generator -/

lemma maskBlock_maskBlock (x : Block) : maskBlock (maskBlock x) = x := by
  simp only [maskBlock, BitVec.xor_assoc, BitVec.xor_self, BitVec.xor_zero]

/-- **The solution and the generator invert each other.**  For every key of 16 bytes and every
array of 32, each program restores the memory the other started from; and on every block, under
every key, decryption and encryption undo each other. -/
theorem solution_inverts_generator {p key : A} (hdist : Memory.OffsetsDistinct p 32)
    (hkey : Memory.Apart p 32 key 16) (m : Memory A) :
    Std.main (Code.main m p key) p key = m ∧ Code.main (Std.main m p key) p key = m ∧
      (∀ k v, decryptWords k (encryptWords k v) = v) ∧
      ∀ k v, encryptWords k (decryptWords k v) = v := by
  have hcode := acts_codeMain hdist m hkey
  have hstd := acts_stdMain hdist m hkey
  refine ⟨?_, ?_, decryptWords_encryptWords, encryptWords_decryptWords⟩
  · have hkey' := keyAt_congr (hcode.key_eq hkey)
    refine (hcode.trans (acts_stdMain hdist _ hkey)).eq_of_id fun i x => ?_
    rw [encryptWords_congr hkey', decryptWords_congr hkey']
    by_cases hi : i.val < 2
    · simp only [hi, if_true, Function.comp_apply, decryptWords_encryptWords, maskBlock_maskBlock]
    · simp only [hi, if_false, Function.comp_apply, encryptWords_decryptWords, maskBlock_maskBlock]
  · have hkey' := keyAt_congr (hstd.key_eq hkey)
    refine (hstd.trans (acts_codeMain hdist _ hkey)).eq_of_id fun i x => ?_
    rw [encryptWords_congr hkey', decryptWords_congr hkey']
    by_cases hi : i.val < 2
    · simp only [hi, if_true, Function.comp_apply, maskBlock_maskBlock, encryptWords_decryptWords]
    · simp only [hi, if_false, Function.comp_apply, maskBlock_maskBlock, decryptWords_encryptWords]

/-- A flag at address 0 and a key at address 64, every byte its own address. -/
theorem solution_inverts_generator_bytes :
    Std.main (Code.main (BitVec.ofNat 8) (0 : ℕ) 64) 0 64 = BitVec.ofNat 8 ∧
      Code.main (Std.main (BitVec.ofNat 8) (0 : ℕ) 64) 0 64 = BitVec.ofNat 8 ∧
      (∀ k v, decryptWords k (encryptWords k v) = v) ∧
      ∀ k v, encryptWords k (decryptWords k v) = v := by
  refine solution_inverts_generator ?_ ?_ _
  · intro i _ j _ h
    simpa using h
  · intro i hi j _
    simp only [Nat.cast_id]
    omega

end Whuctf.Client
