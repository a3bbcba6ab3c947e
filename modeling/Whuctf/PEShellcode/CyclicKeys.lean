import Whuctf.PEShellcode.Session

/-!
# Keys repeat cyclically

`Submit_Key` reads the key through a running index modulo the length, at 72 values of the index.  So a
key counts only through the first 72 bytes of its repetition without end: keys of different lengths
with the same such bytes make the same engine, and nothing else of the memory is read.

The word that is mixed into a subkey takes four bytes, and there are eighteen subkeys.  The running
index is never reset between them, which is why a key goes on where the word before has stopped.
-/

namespace Whuctf.PEShellcode

open BlowfishEngine

/-- `j % length`, with the remainder of C. -/
def keyIndex (length : ℤ) (j : ℕ) : ℤ := (j : ℤ).tmod length

/-- The indices at which `Submit_Key` reads `key_ptr`, in order: four for each of the eighteen subkeys.
-/
def keyReads (length : ℤ) : List ℤ := (List.range 72).map (keyIndex length)

lemma keyByte_eq (m : Memory ℕ) (key : ℕ) (length : ℤ) (j : ℕ) :
    keyByte m key length j = m (key + (keyIndex length j).toNat) := rfl

lemma keyIndex_natCast (length j : ℕ) : keyIndex length j = ((j % length : ℕ) : ℤ) := by
  rw [keyIndex, Int.ofNat_tmod]

lemma keyByte_natCast (m : Memory ℕ) (key length j : ℕ) :
    keyByte m key length j = m (key + j % length) := by
  rw [keyByte_eq, keyIndex_natCast, Int.toNat_natCast]

/-- Two keys whose repetitions agree on 72 bytes leave the same engine, wherever they lie and however
long they are. -/
lemma submitKey_of_repetition (e e' : BlowfishEngine) {m m' : Memory ℕ} {key key' length length' : ℕ}
    (hkey : key ≠ 0) (hkey' : key' ≠ 0) (hlength : 1 ≤ length) (hlength' : 1 ≤ length')
    (hbytes : ∀ j < 72, m (key + j % length) = m' (key' + j % length')) :
    submitKey e m key length = submitKey e' m' key' length' := by
  apply submitKey_congr_keyByte e e'
  · simp only [hkey, false_or, Nat.cast_eq_zero]
    omega
  · simp only [hkey', false_or, Nat.cast_eq_zero]
    omega
  · intro j hj
    rw [keyByte_natCast, keyByte_natCast]
    exact hbytes j hj

/-- **Cyclic keys.**  For keys that are not empty, of any lengths, whatever the engines held before:
* when the repetitions of two keys agree on their first 72 bytes, the engines are the same;
* so a key and any number of its repetitions are the same key;
* and bytes behind the 72nd have no effect;
* every read of the key is at an index below its length, and the engine depends on these bytes. -/
theorem submitKey_cyclic (e e' : BlowfishEngine) (m m' : Memory ℕ) {key key' length length' : ℕ}
    (hkey : key ≠ 0) (hkey' : key' ≠ 0) (hlength : 1 ≤ length) (hlength' : 1 ≤ length') :
    ((∀ j < 72, m (key + j % length) = m' (key' + j % length')) →
      submitKey e m key length = submitKey e' m' key' length') ∧
    (∀ k : ℕ, 1 ≤ k → (∀ j < k * length, m' (key' + j) = m (key + j % length)) →
      submitKey e m key length = submitKey e' m' key' (k * length : ℕ)) ∧
    (72 ≤ length → 72 ≤ length' → (∀ j < 72, m (key + j) = m' (key' + j)) →
      submitKey e m key length = submitKey e' m' key' length') ∧
    (∀ i ∈ keyReads length, 0 ≤ i ∧ i < length) ∧
    ((∀ i ∈ keyReads length, m (key + i.toNat) = m' (key + i.toNat)) →
      submitKey e m key length = submitKey e' m' key length) := by
  refine ⟨submitKey_of_repetition e e' hkey hkey' hlength hlength', ?_, ?_, ?_, ?_⟩
  · intro k hk hrepeats
    have hpos : 1 ≤ k * length := Nat.mul_pos hk hlength
    apply submitKey_of_repetition e e' hkey hkey' hlength hpos
    intro j _
    rw [hrepeats (j % (k * length)) (Nat.mod_lt j hpos), Nat.mod_mod_of_dvd j (Nat.dvd_mul_left length k)]
  · intro hlong hlong' hbytes
    apply submitKey_of_repetition e e' hkey hkey' hlength hlength'
    intro j hj
    rw [Nat.mod_eq_of_lt (by omega), Nat.mod_eq_of_lt (by omega), hbytes j hj]
  · intro i hi
    obtain ⟨j, -, rfl⟩ := List.mem_map.mp hi
    have hlt := Nat.mod_lt j hlength
    rw [keyIndex_natCast]
    omega
  · intro hbytes
    apply submitKey_of_repetition e e' hkey hkey hlength hlength
    intro j hj
    have hread : keyIndex length j ∈ keyReads length :=
      List.mem_map_of_mem (List.mem_range.mpr hj)
    have hbyte := hbytes _ hread
    rwa [keyIndex_natCast, Int.toNat_natCast] at hbyte

/-- The key `7` and the key `7, 7, 7`, which have one repetition and so one schedule. -/
theorem submitKey_cyclic_sevens :
    submitKey init (fun _ => 7) 1 (1 : ℕ) = submitKey init (fun _ => 7) 5 (3 : ℕ) :=
  (submitKey_cyclic init init (fun _ => 7) (fun _ => 7) (by decide) (by decide) (by decide)
    (by decide)).1 fun _ _ => rfl

end Whuctf.PEShellcode
