import Whuctf.Library.Endian

/-!
# Key and initial vector of the pieces challenge

After the transcript, `main` of `std.rs` fills a key and an initial vector of sixteen bytes each from its
generator, and `std.py` predicts the same outputs as two integers of 128 bits, whose bytes it reverses.

The encoding of an integer has no zero bytes at the top, so a string comes back exactly when its last
byte, the top byte of its fourth output, is not zero.  A shorter string is refused by `AES.new`.

The generator is a parameter with any type of states, since both programs take its outputs as they
come.  That its state can be predicted from the transcript is not part of this: the two start from the
same state.
-/

namespace Whuctf.Pieces

open Endian

section Generator

variable {S : Type*} (nextU32 : S → BitVec 32 × S)

/-- The next `n` outputs of a generator, and its state after them. -/
def outputs : ℕ → S → List (BitVec 32) × S
  | 0, s => ([], s)
  | n + 1, s =>
      let (w, s) := nextU32 s
      let (ws, s) := outputs n s
      (w :: ws, s)

/-- `fill_bytes` on a buffer of `4 * n` bytes: the outputs one after the other, each with its lowest
byte first. -/
def fillBytes (n : ℕ) (s : S) : List Byte × S :=
  let (ws, s) := outputs nextU32 n s
  (ws.flatMap Word32.bytesLE, s)

/-- The end of `main`: `key` and `iv`, four outputs each, in the order in which they are filled. -/
def keyAndIv (s : S) : List Byte × List Byte :=
  let (key, s) := fillBytes nextU32 4 s
  let (iv, _) := fillBytes nextU32 4 s
  (key, iv)

/-- `predict_getrandbits` on a multiple of 32 bits: the first output is the lowest word. -/
def predictGetrandbits (bits : ℕ) (s : S) : ℕ × S :=
  let (ws, s) := outputs nextU32 (bits / 32) s
  (Nat.ofDigits (2 ^ 32) (ws.map BitVec.toNat), s)

/-- The recovery in `std.py`: `key` and `iv`, two predicted integers of 128 bits, encoded and reversed.
-/
def recoverKeyAndIv (longToBytes : ℕ → List Byte) (s : S) : List Byte × List Byte :=
  let (key, s) := predictGetrandbits nextU32 128 s
  let (iv, _) := predictGetrandbits nextU32 128 s
  ((longToBytes key).reverse, (longToBytes iv).reverse)

/-- Output `i` of a generator, from zero. -/
def output (i : ℕ) (s : S) : BitVec 32 := (nextU32 ((fun s => (nextU32 s).2)^[i] s)).1

/-- The first four outputs, and the state before the fifth. -/
lemma outputs_four (s : S) : outputs nextU32 4 s =
    ([output nextU32 0 s, output nextU32 1 s, output nextU32 2 s, output nextU32 3 s],
      (fun s => (nextU32 s).2)^[4] s) := rfl

lemma output_add_four (i : ℕ) (s : S) :
    output nextU32 i ((fun s => (nextU32 s).2)^[4] s) = output nextU32 (i + 4) s := by
  rw [output, ← Function.iterate_add_apply]
  rfl

end Generator

/-! ## When a string comes back -/

/-- The top byte of a word is zero below two to the twenty-fourth. -/
lemma byte_three_ne_zero_iff (w : BitVec 32) : Word32.byte w 3 ≠ 0#8 ↔ 2 ^ 24 ≤ w.toNat := by
  have hlt := w.isLt
  have hbyte : (Word32.byte w 3).toNat = w.toNat / 2 ^ 24 := by
    rw [Word32.byte, BitVec.extractLsb'_toNat, Nat.shiftRight_eq_div_pow]
    omega
  rw [Ne, ← BitVec.toNat_inj, hbyte, BitVec.toNat_ofNat]
  omega

/-- The string of four words comes back exactly when the last of them reaches its top byte. -/
lemma reverse_encode_words_iff (lib : Shortest) (w₀ w₁ w₂ w₃ : BitVec 32) :
    (lib.encode (Nat.ofDigits (2 ^ 32) ([w₀, w₁, w₂, w₃].map BitVec.toNat))).reverse =
        [w₀, w₁, w₂, w₃].flatMap Word32.bytesLE ↔ 2 ^ 24 ≤ w₃.toNat := by
  obtain ⟨low, hlow⟩ : ∃ low, low = [w₀, w₁, w₂].flatMap Word32.bytesLE ++
      [Word32.byte w₃ 0, Word32.byte w₃ 1, Word32.byte w₃ 2] := ⟨_, rfl⟩
  have hstring : [w₀, w₁, w₂, w₃].flatMap Word32.bytesLE = low ++ [Word32.byte w₃ 3] := by
    rw [hlow]
    rfl
  have hne : low ≠ [] := by
    rw [hlow]
    simp
  rw [← littleEndian_flatMap, hstring, lib.reverse_encode_eq_iff hne, byte_three_ne_zero_iff]

/-- **Recovery of the key.**  For every generator in every state, `std.py` recovers the key and the
initial vector exactly when the top bytes of their last words are not zero. -/
theorem recoverKeyAndIv_eq_iff {S : Type*} (nextU32 : S → BitVec 32 × S) (lib : Shortest) (s : S) :
    recoverKeyAndIv nextU32 lib.encode s = keyAndIv nextU32 s ↔
      2 ^ 24 ≤ (output nextU32 3 s).toNat ∧ 2 ^ 24 ≤ (output nextU32 7 s).toNat := by
  obtain ⟨s', hs'⟩ : ∃ s', s' = (fun s => (nextU32 s).2)^[4] s := ⟨_, rfl⟩
  have hkey := reverse_encode_words_iff lib (output nextU32 0 s) (output nextU32 1 s)
    (output nextU32 2 s) (output nextU32 3 s)
  have hiv := reverse_encode_words_iff lib (output nextU32 0 s') (output nextU32 1 s')
    (output nextU32 2 s') (output nextU32 3 s')
  have hseventh : output nextU32 3 s' = output nextU32 7 s := hs' ▸ output_add_four nextU32 3 s
  have hwords : 128 / 32 = 4 := rfl
  rw [← hkey, ← hseventh, ← hiv, ← Prod.mk_inj]
  simp only [recoverKeyAndIv, keyAndIv, predictGetrandbits, fillBytes, hwords, outputs_four, hs']

/-- A generator that counts: the key loses the three zero bytes at its end. -/
theorem counter_not_recovered :
    recoverKeyAndIv (fun n : ℕ => (BitVec.ofNat 32 n, n + 1)) digitBytes.encode 1 ≠
      keyAndIv (fun n : ℕ => (BitVec.ofNat 32 n, n + 1)) 1 := by
  intro heq
  have hlength := congrArg (fun p => p.1.length) heq
  revert hlength
  decide +kernel

end Whuctf.Pieces
