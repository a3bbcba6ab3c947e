import Mathlib.Order.Bounds.Defs
import Whuctf.MiaES.RoundTrip

/-!
# The stream mode of miaES

`encrypt_flag` of `task.py` pads the plaintext and xors it with a keystream whose blocks are the
iterated encryptions of the iv; `encrypt_flag` and `decrypt_flag` of `std.py` run the same loop with
`xor` of pwntools in place of the lambda of `task.py`.  The xor is a parameter of the loop, and of the
one from pwntools only its behaviour on byte strings of equal length is used.

The loop xors its text with the keystream whatever the text is, so running it twice gives the text
back, and the padding determines how much of it `unpad` removes.
-/

namespace Whuctf.MiaES

open Python

/-! ## The programs

The three functions that encrypt or decrypt are one loop with another `xor`.  A block of the keystream
is encrypted to get the next, so the text does not enter it. -/

/-- A xor of byte strings, as the loops call it. -/
abbrev XorFunction := List Byte → List Byte → Except PyError (List Byte)

/-- One pass of the loops, on the output so far and the previous block of the keystream. -/
def streamStep (xor : XorFunction) (key text : List Byte) (state : List Byte × List Byte) (i : ℕ) :
    Except PyError (List Byte × List Byte) := do
  let stream ← encrypt key state.2
  let block ← xor (slice text i (i + 16)) stream
  return (state.1 ++ block, stream)

/-- The loop of `encrypt_flag` and `decrypt_flag`, over the text in steps of one block; the iv is the
first block that is encrypted. -/
def streamLoop (xor : XorFunction) (key iv text : List Byte) : Except PyError (List Byte) := do
  let state ← (rangeStep text.length 16).foldlM (streamStep xor key text) ([], iv)
  return state.1

/-- `pad_len`: from one byte up to a whole block. -/
def padLen (plaintext : List Byte) : ℕ := 16 - plaintext.length % 16

/-- The plaintext as both versions of `encrypt_flag` pad it: zeros, and the length of the padding in
the last byte. -/
def pad (plaintext : List Byte) : Except PyError (List Byte) := do
  return plaintext ++ (List.replicate (padLen plaintext - 1) 0#8 ++ (← bytes [padLen plaintext]))

namespace Task

/-- The lambda `xor` of `task.py`. -/
def xor : XorFunction := fun x y => bytes (List.zipWith (· ^^^ ·) (ints x) (ints y))

/-- `encrypt_flag` of `task.py`. -/
def encryptFlag (key iv plaintext : List Byte) : Except PyError (List Byte) := do
  streamLoop xor key iv (← pad plaintext)

end Task

namespace Std

/-- `encrypt_flag` of `std.py`. -/
def encryptFlag (pwnXor : XorFunction) (key iv plaintext : List Byte) :
    Except PyError (List Byte) := do
  streamLoop pwnXor key iv (← pad plaintext)

/-- `decrypt_flag` of `std.py`. -/
def decryptFlag (pwnXor : XorFunction) (key iv ciphertext : List Byte) :
    Except PyError (List Byte) :=
  streamLoop pwnXor key iv ciphertext

/-- `unpad` of `std.py`. -/
def unpad (paddedData : List Byte) : Except PyError (List Byte) := do
  let paddingLen ← getItem (ints paddedData) (-1)
  return sliceToNeg paddedData paddingLen

end Std

/-! ## The keystream

On texts of whole blocks the loop never meets a slice that is too short, and `xor` never two strings of
different lengths.  The keystream is then a function of the key, the iv and the number of blocks. -/

/-- What the loops rely on: on equal lengths, the function is the bytewise xor. -/
def XorsEqualLengths (xor : XorFunction) : Prop :=
  ∀ x y : List Byte, x.length = y.length → xor x y = .ok (List.zipWith (· ^^^ ·) x y)

lemma Task.xor_xors : XorsEqualLengths Task.xor := by
  intro x y _
  have hints : List.zipWith (· ^^^ ·) (ints x) (ints y) = ints (List.zipWith (· ^^^ ·) x y) := by
    simp [ints, List.zipWith_map, List.map_zipWith, BitVec.toNat_xor]
  rw [Task.xor, hints, bytes_ints]

section Keystream

variable {xor : XorFunction} {key iv : List Byte}

/-- The block after `block` in the keystream, its encryption under the key. -/
def nextBlock (key block : List Byte) : List Byte := bytesOf (cipher (roundKey key) (blockOf block))

/-- The block with which the loops start pass `j`: the iv, encrypted `j` times. -/
def streamBlock (key iv : List Byte) (j : ℕ) : List Byte := (nextBlock key)^[j] iv

lemma streamBlock_succ (j : ℕ) :
    streamBlock key iv (j + 1) = nextBlock key (streamBlock key iv j) :=
  Function.iterate_succ_apply' (nextBlock key) j iv

/-- The first `n` blocks the loops xor their text with. -/
def keystream (key iv : List Byte) (n : ℕ) : List Byte :=
  (List.range n).flatMap fun j => streamBlock key iv (j + 1)

lemma keystream_succ (n : ℕ) :
    keystream key iv (n + 1) = keystream key iv n ++ streamBlock key iv (n + 1) := by
  simp [keystream, List.range_succ]

lemma length_streamBlock (hiv : iv.length = 16) (j : ℕ) : (streamBlock key iv j).length = 16 := by
  cases j with
  | zero => exact hiv
  | succ j => rw [streamBlock_succ, nextBlock, length_bytesOf]

lemma length_keystream (n : ℕ) : (keystream key iv n).length = 16 * n := by
  induction n with
  | zero => rfl
  | succ n ih =>
    rw [keystream_succ, List.length_append, ih, streamBlock_succ, nextBlock, length_bytesOf]
    omega

lemma encrypt_streamBlock (hkey : key.length ∈ keySize) (hiv : iv.length = 16) (j : ℕ) :
    encrypt key (streamBlock key iv j) = .ok (streamBlock key iv (j + 1)) := by
  rw [encrypt_eq hkey (length_streamBlock hiv j), streamBlock_succ, nextBlock]

/-- After `j` passes the output is the text's first `j` blocks under the keystream. -/
lemma streamLoop_prefix (hxor : XorsEqualLengths xor) (hkey : key.length ∈ keySize)
    (hiv : iv.length = 16) {text : List Byte} {n : ℕ} (htext : text.length = 16 * n) {j : ℕ}
    (hj : j ≤ n) :
    (List.range j).foldlM (fun state i => streamStep xor key text state (i * 16)) ([], iv) =
      .ok (List.zipWith (· ^^^ ·) (text.take (16 * j)) (keystream key iv j), streamBlock key iv j) := by
  induction j with
  | zero =>
    simp only [mul_zero, List.take_zero, List.zipWith_nil_left]
    rfl
  | succ j ih =>
    have hslice : slice text (j * 16) (j * 16 + 16) = (text.drop (16 * j)).take 16 := by
      simp [slice, mul_comm]
    have hlength : ((text.drop (16 * j)).take 16).length = 16 := by simp; omega
    have hblock := hxor ((text.drop (16 * j)).take 16) (streamBlock key iv (j + 1))
      (hlength.trans (length_streamBlock hiv (j + 1)).symm)
    have hstep : streamStep xor key text
        (List.zipWith (· ^^^ ·) (text.take (16 * j)) (keystream key iv j), streamBlock key iv j)
        (j * 16) = .ok (List.zipWith (· ^^^ ·) (text.take (16 * (j + 1))) (keystream key iv (j + 1)),
          streamBlock key iv (j + 1)) := by
      have hwhole : (text.take (16 * j)).length = (keystream key iv j).length := by
        rw [length_keystream, List.length_take]
        omega
      rw [streamStep, encrypt_streamBlock hkey hiv, ok_bind, hslice, hblock, ok_bind, keystream_succ,
        mul_add, mul_one, List.take_add, List.zipWith_append hwhole]
      rfl
    rw [List.range_succ, List.foldlM_append, ih (by omega), ok_bind, List.foldlM_cons, hstep]
    rfl

/-- The loops xor a text of whole blocks with the keystream. -/
lemma streamLoop_eq (hxor : XorsEqualLengths xor) (hkey : key.length ∈ keySize)
    (hiv : iv.length = 16) {text : List Byte} {n : ℕ} (htext : text.length = 16 * n) :
    streamLoop xor key iv text = .ok (List.zipWith (· ^^^ ·) text (keystream key iv n)) := by
  have hcount : (text.length + 16 - 1) / 16 = n := by omega
  rw [streamLoop, rangeStep, List.foldlM_map, hcount,
    streamLoop_prefix hxor hkey hiv htext le_rfl, ok_bind, List.take_of_length_le (by omega)]
  rfl

lemma zipWith_xor_self (text stream : List Byte) (h : text.length = stream.length) :
    List.zipWith (· ^^^ ·) (List.zipWith (· ^^^ ·) text stream) stream = text := by
  apply List.ext_getElem
  · simp [h]
  · intro i _ _
    rw [List.getElem_zipWith, List.getElem_zipWith, BitVec.xor_assoc, BitVec.xor_self,
      BitVec.xor_zero]

end Keystream

/-! ## Padding -/

section Padding

variable (p : List Byte)

lemma padLen_pos : 0 < padLen p := by
  unfold padLen
  omega

lemma padLen_le : padLen p ≤ 16 := by
  unfold padLen
  omega

/-- The padding that both versions append: zeros, and its length in the last byte. -/
def padding : List Byte := List.replicate (padLen p - 1) 0#8 ++ [BitVec.ofNat 8 (padLen p)]

lemma pad_eq : pad p = .ok (p ++ padding p) := by
  have hbyte : bytes [padLen p] = .ok [BitVec.ofNat 8 (padLen p)] := by
    have hle := padLen_le p
    rw [bytes, if_pos (by simp; omega)]
    rfl
  rw [pad, hbyte, ok_bind]
  rfl

lemma length_padding : (padding p).length = padLen p := by
  have hpos := padLen_pos p
  simp [padding]
  omega

/-- The padded plaintext is the shortest string of whole blocks longer than the plaintext. -/
lemma length_padded : (p ++ padding p).length = 16 * (p.length / 16 + 1) := by
  rw [List.length_append, length_padding, padLen]
  omega

lemma unpad_padded : Std.unpad (p ++ padding p) = .ok p := by
  have hle := padLen_le p
  have hpos := padLen_pos p
  have hpadded : ints (p ++ padding p) =
      ints (p ++ List.replicate (padLen p - 1) 0#8) ++ [padLen p] := by
    simp [ints, padding]
    omega
  have hlast : getItem (ints (p ++ padding p)) (-1) = .ok (padLen p) := by
    rw [hpadded]
    have hneg := getItem_neg (l := ints (p ++ List.replicate (padLen p - 1) 0#8) ++ [padLen p])
      (i := 1) one_pos (by simp)
    apply hneg.trans
    simp
  rw [Std.unpad, hlast, ok_bind, sliceToNeg, if_neg (by omega), List.length_append,
    length_padding, Nat.add_sub_cancel, List.take_left']
  · rfl
  · rfl

end Padding

/-! ## The round trip -/

/-- The two scripts encrypt alike: on a padded plaintext the loop asks its xor for whole blocks only,
where the one of `task.py` and the one of pwntools agree. -/
theorem Std.encryptFlag_eq_task {pwnXor : XorFunction} (hxor : XorsEqualLengths pwnXor)
    {key iv : List Byte} (hkey : key.length ∈ keySize) (hiv : iv.length = 16) (p : List Byte) :
    Std.encryptFlag pwnXor key iv p = Task.encryptFlag key iv p := by
  have hpadded := length_padded p
  rw [Std.encryptFlag, Task.encryptFlag, pad_eq, ok_bind, ok_bind,
    streamLoop_eq hxor hkey hiv hpadded, streamLoop_eq Task.xor_xors hkey hiv hpadded]

/-- The solver recovers every plaintext from the challenge's ciphertext, whose length is the least
multiple of the block size above the plaintext's. -/
theorem unpad_decryptFlag_encryptFlag {pwnXor : XorFunction} (hxor : XorsEqualLengths pwnXor)
    {key iv : List Byte} (hkey : key.length = 16) (hiv : iv.length = 16) (p : List Byte) :
    ∃ c padded, Task.encryptFlag key iv p = .ok c ∧
      Std.decryptFlag pwnXor key iv c = .ok padded ∧ Std.unpad padded = .ok p ∧
      IsLeast {n | 16 ∣ n ∧ p.length < n} c.length := by
  have hsize : key.length ∈ keySize := by simp [keySize, hkey]
  have hpadded := length_padded p
  have hstream : (p ++ padding p).length = (keystream key iv (p.length / 16 + 1)).length := by
    rw [hpadded, length_keystream]
  have hc : (List.zipWith (· ^^^ ·) (p ++ padding p)
      (keystream key iv (p.length / 16 + 1))).length = 16 * (p.length / 16 + 1) := by
    rw [List.length_zipWith, ← hstream, min_self, hpadded]
  refine ⟨List.zipWith (· ^^^ ·) (p ++ padding p) (keystream key iv (p.length / 16 + 1)),
    p ++ padding p, ?_, ?_, unpad_padded p, ?_⟩
  · rw [Task.encryptFlag, pad_eq, ok_bind]
    exact streamLoop_eq Task.xor_xors hsize hiv hpadded
  · rw [Std.decryptFlag, streamLoop_eq hxor hsize hiv hc, zipWith_xor_self _ _ hstream]
  · rw [hc]
    constructor
    · constructor
      · exact dvd_mul_right 16 _
      · omega
    · rintro n ⟨⟨q, rfl⟩, hlt⟩
      omega

theorem unpad_decryptFlag_encryptFlag_zeros :
    ∃ c padded, Task.encryptFlag (List.replicate 16 0#8) (List.replicate 16 0#8) [104#8, 105#8] =
        .ok c ∧
      Std.decryptFlag (fun x y => .ok (List.zipWith (· ^^^ ·) x y)) (List.replicate 16 0#8)
        (List.replicate 16 0#8) c = .ok padded ∧
      Std.unpad padded = .ok [104#8, 105#8] ∧ IsLeast {n | 16 ∣ n ∧ 2 < n} c.length :=
  unpad_decryptFlag_encryptFlag (fun _ _ _ => rfl) (by decide) (by decide) [104#8, 105#8]

end Whuctf.MiaES
