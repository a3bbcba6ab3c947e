import Whuctf.Library.Memory

/-!
# 32-bit words as four bytes

`ofBytes` assembles a word from its bytes, most significant first, and `byte` reads byte `k`
back, counted from the least significant.  Both round trips are proved on bit positions.
`Memory.load32` and `Memory.store32` transfer a word in little-endian byte order.

Both orders occur in one program: a cipher that numbers its bytes from the most significant one runs on
a machine that stores the least significant one first.  So the assembly of a word does not fix an order
in memory, and the loads and stores do.
-/

namespace Whuctf.Word32

/-- The 32-bit word with the given bytes, most significant first. -/
def ofBytes (b₃ b₂ b₁ b₀ : Byte) : BitVec 32 := b₃ ++ b₂ ++ b₁ ++ b₀

/-- Byte `k` of a word, counted from the least significant. -/
def byte (x : BitVec 32) (k : ℕ) : Byte := x.extractLsb' (8 * k) 8

lemma getLsbD_ofBytes (b₃ b₂ b₁ b₀ : Byte) (i : ℕ) :
    (ofBytes b₃ b₂ b₁ b₀).getLsbD i =
      if i < 8 then b₀.getLsbD i
      else if i < 16 then b₁.getLsbD (i - 8)
      else if i < 24 then b₂.getLsbD (i - 16)
      else b₃.getLsbD (i - 24) := by
  change BitVec.getLsbD (w := 8 + 8 + 8 + 8) (b₃ ++ b₂ ++ b₁ ++ b₀) i = _
  simp only [BitVec.getLsbD_append, Nat.sub_sub]
  grind

@[simp] lemma ofBytes_byte (x : BitVec 32) :
    ofBytes (byte x 3) (byte x 2) (byte x 1) (byte x 0) = x := by
  apply BitVec.eq_of_getLsbD_eq
  intro i hi
  simp only [getLsbD_ofBytes, byte, BitVec.getLsbD_extractLsb']
  grind

/-- Exclusive or of words is exclusive or of their bytes. -/
lemma ofBytes_xor (a₃ a₂ a₁ a₀ b₃ b₂ b₁ b₀ : Byte) :
    ofBytes (a₃ ^^^ b₃) (a₂ ^^^ b₂) (a₁ ^^^ b₁) (a₀ ^^^ b₀) =
      ofBytes a₃ a₂ a₁ a₀ ^^^ ofBytes b₃ b₂ b₁ b₀ := by
  rw [ofBytes, ofBytes, ofBytes, BitVec.xor_append, BitVec.xor_append, BitVec.xor_append]

section Byte

variable (b₃ b₂ b₁ b₀ : Byte)

lemma getLsbD_byte_ofBytes (k i : ℕ) :
    (byte (ofBytes b₃ b₂ b₁ b₀) k).getLsbD i =
      (decide (i < 8) && (ofBytes b₃ b₂ b₁ b₀).getLsbD (8 * k + i)) := by
  simp only [byte, BitVec.getLsbD_extractLsb']

@[simp] lemma byte_ofBytes_zero : byte (ofBytes b₃ b₂ b₁ b₀) 0 = b₀ := by
  apply BitVec.eq_of_getLsbD_eq
  intro i hi
  simp only [getLsbD_byte_ofBytes, getLsbD_ofBytes]
  grind

@[simp] lemma byte_ofBytes_one : byte (ofBytes b₃ b₂ b₁ b₀) 1 = b₁ := by
  apply BitVec.eq_of_getLsbD_eq
  intro i hi
  simp only [getLsbD_byte_ofBytes, getLsbD_ofBytes]
  grind

@[simp] lemma byte_ofBytes_two : byte (ofBytes b₃ b₂ b₁ b₀) 2 = b₂ := by
  apply BitVec.eq_of_getLsbD_eq
  intro i hi
  simp only [getLsbD_byte_ofBytes, getLsbD_ofBytes]
  grind

@[simp] lemma byte_ofBytes_three : byte (ofBytes b₃ b₂ b₁ b₀) 3 = b₃ := by
  apply BitVec.eq_of_getLsbD_eq
  intro i hi
  simp only [getLsbD_byte_ofBytes, getLsbD_ofBytes]
  grind

end Byte

/-- The four bytes of a word, in little-endian order: the lowest comes first. -/
def bytesLE (x : BitVec 32) : List Byte := [byte x 0, byte x 1, byte x 2, byte x 3]

@[simp] lemma length_bytesLE (x : BitVec 32) : (bytesLE x).length = 4 := rfl

lemma bytesLE_injective : Function.Injective bytesLE := by
  intro x y h
  simp only [bytesLE, List.cons.injEq, and_true] at h
  obtain ⟨h0, h1, h2, h3⟩ := h
  rw [← ofBytes_byte x, ← ofBytes_byte y, h0, h1, h2, h3]

end Whuctf.Word32

namespace Whuctf.Memory

variable {A : Type*} [AddMonoidWithOne A]

/-- A little-endian 32-bit load, from four addresses one behind the other. -/
def load32 (m : Memory A) (a : A) : BitVec 32 :=
  Word32.ofBytes (m (a + (3 : ℕ))) (m (a + (2 : ℕ))) (m (a + (1 : ℕ))) (m (a + (0 : ℕ)))

/-- A little-endian 32-bit store, to four addresses one behind the other. -/
def store32 [DecidableEq A] (m : Memory A) (a : A) (x : BitVec 32) : Memory A :=
  m.write a (Word32.bytesLE x)

lemma bytesLE_load32 (m : Memory A) (a : A) : Word32.bytesLE (m.load32 a) = m.read a 4 := by
  simp [Word32.bytesLE, load32, read, List.range_succ]

lemma load32_congr {B : Type*} [AddMonoidWithOne B] {m : Memory A} {m' : Memory B} {a : A}
    {b : B} (h : m.read a 4 = m'.read b 4) : m.load32 a = m'.load32 b := by
  rw [← bytesLE_load32, ← bytesLE_load32] at h
  exact Word32.bytesLE_injective h

end Whuctf.Memory
