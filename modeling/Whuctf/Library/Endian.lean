import Mathlib.Data.Nat.Digits.Lemmas
import Mathlib.Tactic.NormNum
import Whuctf.Library.Numerals
import Whuctf.Library.Word32

/-!
# Byte strings and numbers

The number of a byte string in little-endian order, and the encoders that give the shortest big-endian
string of a number.  Such an encoder drops zero bytes at the top, so it gives a string back, reversed,
exactly when the last byte of the string is not zero (`reverse_encode_eq_iff`).

The number zero is the one case in which encoders differ: the shortest string for it is empty, and some
write a byte all the same.  `Shortest`
leaves this open: it asks that the number comes back, and that no non-empty string of it is shorter.
-/

namespace Whuctf.Endian

/-- The number of a byte string, the least significant byte first. -/
def littleEndian (bs : List Byte) : ℕ := Nat.ofDigits 256 (bs.map BitVec.toNat)

section LittleEndian

lemma toNat_lt_of_mem (bs : List Byte) : ∀ d ∈ bs.map BitVec.toNat, d < 256 := by
  intro d hd
  obtain ⟨b, -, rfl⟩ := List.mem_map.mp hd
  exact b.isLt

lemma littleEndian_append (low high : List Byte) :
    littleEndian (low ++ high) = littleEndian low + 256 ^ low.length * littleEndian high := by
  rw [littleEndian, List.map_append, Nat.ofDigits_append, List.length_map]
  rfl

lemma littleEndian_lt (bs : List Byte) : littleEndian bs < 256 ^ bs.length := by
  have hlt := Nat.ofDigits_lt_base_pow_length (by decide : 1 < 256) (toNat_lt_of_mem bs)
  rwa [List.length_map] at hlt

/-- Strings of one length are told apart by their numbers. -/
lemma eq_of_littleEndian_eq {bs cs : List Byte} (hlength : bs.length = cs.length)
    (h : littleEndian bs = littleEndian cs) : bs = cs := by
  have hmap := Nat.ofDigits_inj_of_len_eq (by decide : 1 < 256) (by simpa using hlength)
    (toNat_lt_of_mem bs) (toNat_lt_of_mem cs) h
  exact (List.map_inj_right fun _ _ => BitVec.eq_of_toNat_eq).mp hmap

/-- The bytes of words in little-endian order are the number whose digits are the words. -/
lemma littleEndian_flatMap (ws : List (BitVec 32)) :
    littleEndian (ws.flatMap Word32.bytesLE) = Nat.ofDigits (2 ^ 32) (ws.map BitVec.toNat) := by
  induction ws with
  | nil => rfl
  | cons w ws ih =>
    have hword : littleEndian (Word32.bytesLE w) = w.toNat := by
      simp only [littleEndian, Word32.bytesLE, List.map_cons, List.map_nil, Nat.ofDigits_cons,
        Nat.ofDigits_nil, Word32.byte, BitVec.extractLsb'_toNat, Nat.shiftRight_eq_div_pow]
      have hlt := w.isLt
      omega
    have hbase : 256 ^ (Word32.bytesLE w).length = 2 ^ 32 := by
      rw [Word32.length_bytesLE]
      norm_num
    rw [List.flatMap_cons, littleEndian_append, hword, hbase, ih, List.map_cons, Nat.ofDigits_cons]

end LittleEndian

/-! ## Shortest encodings -/

/-- An encoder of numbers in big-endian order that uses as few bytes as a non-empty string can. -/
structure Shortest where
  encode : ℕ → List Byte
  value : ∀ n, littleEndian (encode n).reverse = n
  length_le : ∀ {n} {bs : List Byte}, bs ≠ [] → littleEndian bs = n → (encode n).length ≤ bs.length

/-- The encoder that writes the digits, with one byte for zero. -/
def digitBytes : Shortest where
  encode n := (Numerals.digitsOf 256 n).map (BitVec.ofNat 8)
  value n := by
    have hbytes : ((Numerals.digitsOf 256 n).map (BitVec.ofNat 8)).map BitVec.toNat =
        Numerals.digitsOf 256 n := by
      have hdigit : ∀ d ∈ Numerals.digitsOf 256 n, (BitVec.toNat ∘ BitVec.ofNat 8) d = id d := by
        intro d hd
        have hlt := Numerals.lt_of_mem_digitsOf (by decide) hd
        rw [Function.comp_apply, BitVec.toNat_ofNat, id_eq]
        omega
      rw [List.map_map, List.map_congr_left hdigit, List.map_id]
    rw [littleEndian, List.map_reverse, hbytes, Numerals.ofDigits_digitsOf]
  length_le := by
    intro n bs hne hvalue
    have hpos : 0 < bs.length := List.length_pos_iff.mpr hne
    rw [List.length_map, Numerals.digitsOf]
    by_cases hzero : n = 0
    · rw [if_pos hzero]
      exact hpos
    · rw [if_neg hzero, List.length_reverse, Nat.digits_length_le_iff (by decide)]
      exact hvalue ▸ littleEndian_lt bs

/-- **What comes back.**  The shortest encoding of the number of a string is the string, reversed,
exactly when the last byte is not zero. -/
theorem Shortest.reverse_encode_eq_iff (lib : Shortest) {low : List Byte} (hlow : low ≠ [])
    (last : Byte) :
    (lib.encode (littleEndian (low ++ [last]))).reverse = low ++ [last] ↔ last ≠ 0#8 := by
  obtain ⟨n, hn⟩ : ∃ n, n = littleEndian (low ++ [last]) := ⟨_, rfl⟩
  have hvalue := lib.value n
  have hlast : littleEndian [last] = last.toNat := by simp [littleEndian]
  have hsum : n = littleEndian low + 256 ^ low.length * last.toNat := by
    rw [hn, littleEndian_append, hlast]
  rw [← hn]
  constructor
  · rintro heq rfl
    have hshort : (lib.encode n).length ≤ low.length :=
      lib.length_le hlow (by rw [hsum]; simp)
    have hlength := congrArg List.length heq
    rw [List.length_reverse, List.length_append, List.length_singleton] at hlength
    omega
  · intro hne
    have hpos : 0 < last.toNat := by
      rw [Nat.pos_iff_ne_zero]
      exact fun hzero => hne (BitVec.eq_of_toNat_eq hzero)
    have hlong : low.length < (lib.encode n).length := by
      have hlt := littleEndian_lt (lib.encode n).reverse
      rw [hvalue, List.length_reverse] at hlt
      apply (Nat.pow_lt_pow_iff_right (by decide : 1 < 256)).mp
      calc 256 ^ low.length ≤ 256 ^ low.length * last.toNat := Nat.le_mul_of_pos_right _ hpos
        _ ≤ n := by omega
        _ < 256 ^ (lib.encode n).length := hlt
    have hshort : (lib.encode n).length ≤ (low ++ [last]).length :=
      lib.length_le (by simp) hn.symm
    apply eq_of_littleEndian_eq
    · rw [List.length_reverse]
      rw [List.length_append, List.length_singleton] at hshort ⊢
      omega
    · rw [hvalue, hn]

end Whuctf.Endian
