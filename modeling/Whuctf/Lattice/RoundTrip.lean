import Whuctf.Lattice.KeyGeneration

/-!
# Encryption and decryption of the lattice challenge

A message is a text of bits; its ciphertext is the sum of the public weights at its ones, as a binary
text.  Decryption takes the mask off, modulo `_q`, and decodes greedily.

`genKey` draws `_q` above the last private weight only, not above the sum of all of them.  So a
message is decrypted rightly exactly when the private weights at its ones sum to less than `_q`, and
all messages are when the sum of all the weights is.

The greedy decoder is that of `Library/SubsetSum`.  What is particular to the challenge is how the
texts of bits are read and written, and that the inverse of `_r` takes the mask off whatever the
message is.
-/

namespace Whuctf.Lattice

open Python SubsetSum

/-! ## The programs -/

/-- One pass of the loop of `encrypt`, on `cipher` and `cnt`. -/
def encryptBit (pubKey : List ℕ) (state : ℕ × ℕ) (bit : Char) : Except PyError (ℕ × ℕ) := do
  return (state.1 + (← intOf [bit] 10) * (← getItem pubKey state.2), state.2 + 1)

/-- `encrypt`: the public weights at the ones of the message are summed; `bin(cipher)[2:]` is the
binary numeral of `cipher`. -/
def encrypt (msg : List Char) (pubKey : List ℕ) : Except PyError (List Char) := do
  let (cipher, _) ← msg.foldlM (encryptBit pubKey) (0, 0)
  return Numerals.numeral 2 cipher

/-- One pass of the loop of `decrypt`, on `_msg` and `res`. -/
def decryptBit (privKey : List ℕ) (state : ℕ × List Char) (i : ℕ) :
    Except PyError (ℕ × List Char) := do
  let weight ← getItem privKey i
  if state.1 ≥ weight then return (state.1 - weight, '1' :: state.2)
  else return (state.1, '0' :: state.2)

/-- `decrypt`: the number of the text, the mask taken off modulo `_q`, and the bits found by going over
the weights from the last. -/
def decrypt (g : Gmpy2) (c : List Char) (privKey : List ℕ) (q r : ℕ) :
    Except PyError (List Char) := do
  let s ← g.invert r q
  let msg := (← intOf c 2) * s % q
  -- `range(len(_privKey) - 1, -1, -1)`
  let (_, res) ← (List.range privKey.length).reverse.foldlM (decryptBit privKey) (msg, [])
  return res

/-! ## Encryption -/

/-- The text of a list of bits, one character for each. -/
def bitText (bits : List Bool) : List Char := bits.map fun b => if b then '1' else '0'

lemma intOf_bit (b : Bool) : intOf [if b then '1' else '0'] 10 = .ok b.toNat := by
  cases b <;> decide

lemma encryptBits (pubKey : List ℕ) (bits : List Bool) (cipher : ℕ) {cnt : ℕ}
    (h : cnt + bits.length ≤ pubKey.length) :
    (bitText bits).foldlM (encryptBit pubKey) (cipher, cnt) =
      .ok (cipher + total bits (pubKey.drop cnt), cnt + bits.length) := by
  induction bits generalizing cipher cnt with
  | nil => simp [bitText, total, pure, Except.pure]
  | cons b bits ih =>
    rw [List.length_cons] at h
    have hbit : encryptBit pubKey (cipher, cnt) (if b then '1' else '0') =
        .ok (cipher + b.toNat * pubKey[cnt], cnt + 1) := by
      rw [encryptBit, intOf_bit, ok_bind, getItem_ofNat (by omega), ok_bind]
      rfl
    have hlength : cnt + 1 + bits.length ≤ pubKey.length := by omega
    have hrest := ih (cipher + b.toNat * pubKey[cnt]) hlength
    rw [bitText, List.map_cons, List.foldlM_cons, hbit, ok_bind]
    apply hrest.trans
    rw [List.drop_eq_getElem_cons (i := cnt) (by omega), total_cons, List.length_cons, add_assoc,
      add_assoc, add_comm 1]

lemma encrypt_eq {pubKey : List ℕ} {bits : List Bool} (h : bits.length = pubKey.length) :
    encrypt (bitText bits) pubKey = .ok (Numerals.numeral 2 (total bits pubKey)) := by
  rw [encrypt, encryptBits pubKey bits 0 (by omega), ok_bind, zero_add, List.drop_zero]
  rfl

/-! ## Decryption -/

lemma decryptBits (privKey : List ℕ) {k : ℕ} (hk : k ≤ privKey.length) (m : ℕ) (bits : List Bool) :
    (List.range k).reverse.foldlM (decryptBit privKey) (m, bitText bits) =
      .ok (((privKey.take k).foldr greedyStep (m, bits)).1,
        bitText ((privKey.take k).foldr greedyStep (m, bits)).2) := by
  induction k generalizing m bits with
  | zero => simp [pure, Except.pure]
  | succ k ih =>
    have hbit : decryptBit privKey (m, bitText bits) k =
        .ok ((greedyStep privKey[k] (m, bits)).1, bitText (greedyStep privKey[k] (m, bits)).2) := by
      rw [decryptBit, getItem_ofNat (by omega), ok_bind]
      unfold greedyStep
      by_cases hfits : privKey[k] ≤ m
      · rw [if_pos hfits, if_pos hfits]
        rfl
      · rw [if_neg hfits, if_neg hfits]
        rfl
    rw [List.range_succ, List.reverse_append, List.reverse_singleton, List.singleton_append,
      List.foldlM_cons, hbit, ok_bind, ih (by omega), List.take_add_one,
      List.getElem?_eq_getElem (by omega), Option.toList_some, List.foldr_append, List.foldr_cons,
      List.foldr_nil]

lemma decrypt_eq {g : Gmpy2} {privKey : List ℕ} {q r : ℕ} (hq : 1 < q) (hr : Nat.gcd r q = 1)
    (bits : List Bool) :
    decrypt g (Numerals.numeral 2 (total bits (privKey.map fun w => r * w % q))) privKey q r =
      .ok (bitText (greedy privKey (total bits privKey % q)).2) := by
  obtain ⟨s, hinvert, hinverse⟩ := g.invert_ok hq hr
  have hparse : intOf (Numerals.numeral 2 (total bits (privKey.map fun w => r * w % q))) 2 =
      .ok (total bits (privKey.map fun w => r * w % q)) := intOf_numeral (by omega) (by omega)
  have hmask : total bits (privKey.map fun w => r * w % q) * s % q = total bits privKey % q :=
    total_map_mul_inverse bits privKey (by rw [hinverse, Nat.mod_eq_of_lt hq])
  have hloop := decryptBits privKey le_rfl (total bits privKey % q) []
  rw [List.take_length] at hloop
  rw [decrypt, hinvert, ok_bind, hparse, ok_bind]
  show ((List.range privKey.length).reverse.foldlM (decryptBit privKey)
    (total bits (privKey.map fun w => r * w % q) * s % q, bitText []) >>= _) = _
  rw [hmask, hloop, ok_bind]
  rfl

lemma bitText_injective : Function.Injective bitText := by
  apply List.map_injective_iff.mpr
  intro a b h
  cases a <;> cases b <;> simp_all

/-! ## Which messages survive -/

/-- The program decodes what remains of the sum modulo `_q`. -/
lemma roundTrip_eq {g : Gmpy2} {privKey : List ℕ} {q r : ℕ} (hq : 1 < q) (hr : Nat.gcd r q = 1)
    {bits : List Bool} (hbits : bits.length = privKey.length) :
    (encrypt (bitText bits) (privKey.map fun w => r * w % q) >>= fun c => decrypt g c privKey q r) =
      .ok (bitText (greedy privKey (total bits privKey % q)).2) := by
  rw [encrypt_eq (by rwa [List.length_map]), ok_bind, decrypt_eq hq hr bits]

lemma roundTrip_iff {g : Gmpy2} {privKey : List ℕ} (hpriv : Superincreasing privKey) {q r : ℕ}
    (hq : 1 < q) (hr : Nat.gcd r q = 1) {bits : List Bool} (hbits : bits.length = privKey.length) :
    (encrypt (bitText bits) (privKey.map fun w => r * w % q) >>= fun c => decrypt g c privKey q r) =
        .ok (bitText bits) ↔ total bits privKey < q := by
  rw [roundTrip_eq hq hr hbits, ← greedy_mod_iff hpriv hbits (Nat.zero_lt_of_lt hq)]
  constructor
  · intro heq
    exact bitText_injective (Except.ok.inj heq)
  · intro heq
    rw [heq]

/-- For every key that `genKey` can return, a message is decrypted to itself exactly when the private
weights at its ones sum to less than the modulus. -/
theorem decrypt_encrypt_iff (g : Gmpy2) {n : ℕ} (hn : 1 ≤ n) {draws rest : List ℕ} {key : Key}
    (hkey : genKey g n draws = .ok (key, rest)) (bits : List Bool) (hbits : bits.length = n) :
    (encrypt (bitText bits) key.pubKey >>= fun c => decrypt g c key.privKey key.q key.r) =
        .ok (bitText bits) ↔ total bits key.privKey < key.q := by
  have hvalid := genKey_valid hn hkey
  rw [hvalid.pubKey]
  exact roundTrip_iff hvalid.superincreasing hvalid.one_lt hvalid.coprime
    (by rw [hbits, hvalid.length])

theorem decrypt_encrypt_iff_two :
    (encrypt (bitText [false, true]) [1, 2] >>= fun c => decrypt searchGmpy2 c [1, 2] 3 1) =
        .ok (bitText [false, true]) ↔ total [false, true] [1, 2] < 3 :=
  decrypt_encrypt_iff searchGmpy2 (n := 2) (by decide) genKey_two [false, true] rfl

/-- Not every message survives: under the key of that run, `11` is encrypted to the modulus itself. -/
theorem two_ones_not_decrypted :
    ¬∀ (g : Gmpy2) (n : ℕ), 1 ≤ n → ∀ (draws rest : List ℕ) (key : Key),
      genKey g n draws = .ok (key, rest) → ∀ bits : List Bool, bits.length = n →
        (encrypt (bitText bits) key.pubKey >>= fun c => decrypt g c key.privKey key.q key.r) =
          .ok (bitText bits) := by
  intro hclaim
  have hones := hclaim searchGmpy2 2 (by decide) _ _ _ genKey_two [true, true] rfl
  have hvalid := genKey_valid (by decide) genKey_two
  rw [hvalid.pubKey, roundTrip_eq hvalid.one_lt hvalid.coprime rfl] at hones
  have htexts := Except.ok.inj hones
  revert htexts
  decide

/-- **When every message survives.**  For superincreasing private weights, a modulus above the last of
them and a multiplier coprime to it, all messages are decrypted to themselves exactly when the modulus
exceeds the sum of the weights; in particular for every key that `genKey` can return. -/
theorem all_decrypted_iff (g : Gmpy2) :
    (∀ (privKey : List ℕ) (q r : ℕ) (hne : privKey ≠ []), Superincreasing privKey →
      privKey.getLast hne < q → Nat.gcd r q = 1 →
      ((∀ bits : List Bool, bits.length = privKey.length →
        (encrypt (bitText bits) (privKey.map fun w => r * w % q) >>= fun c =>
          decrypt g c privKey q r) = .ok (bitText bits)) ↔ privKey.sum < q)) ∧
    ∀ n, 1 ≤ n → ∀ (draws rest : List ℕ) (key : Key), genKey g n draws = .ok (key, rest) →
      ((∀ bits : List Bool, bits.length = n →
        (encrypt (bitText bits) key.pubKey >>= fun c => decrypt g c key.privKey key.q key.r) =
          .ok (bitText bits)) ↔ key.privKey.sum < key.q) := by
  have hgeneral : ∀ {privKey : List ℕ} {q r : ℕ}, Superincreasing privKey → 1 < q →
      Nat.gcd r q = 1 →
      ((∀ bits : List Bool, bits.length = privKey.length →
        (encrypt (bitText bits) (privKey.map fun w => r * w % q) >>= fun c =>
          decrypt g c privKey q r) = .ok (bitText bits)) ↔ privKey.sum < q) := by
    intro privKey q r hpriv hq hr
    rw [← forall_total_lt_iff]
    apply forall₂_congr
    intro bits hbits
    exact roundTrip_iff hpriv hq hr hbits
  constructor
  · intro privKey q r hne hpriv hlast hr
    have hpos := getLast_pos hpriv hne
    exact hgeneral hpriv (by omega) hr
  · intro n hn draws rest key hkey
    have hvalid := genKey_valid hn hkey
    rw [hvalid.pubKey, ← hvalid.length]
    exact hgeneral hvalid.superincreasing hvalid.one_lt hvalid.coprime

/-- The weights 1 and 2: every message is decrypted under the modulus 4, and not under the modulus 3
that a run can draw. -/
theorem all_decrypted_iff_two :
    ((∀ bits : List Bool, bits.length = [1, 2].length →
      (encrypt (bitText bits) ([1, 2].map fun w => 3 * w % 4) >>= fun c =>
        decrypt searchGmpy2 c [1, 2] 4 3) = .ok (bitText bits)) ↔ [1, 2].sum < 4) ∧
    ((∀ bits : List Bool, bits.length = 2 →
      (encrypt (bitText bits) [1, 2] >>= fun c => decrypt searchGmpy2 c [1, 2] 3 1) =
        .ok (bitText bits)) ↔ [1, 2].sum < 3) := by
  have hvalid := genKey_valid (by decide) genKey_two
  constructor
  · exact (all_decrypted_iff searchGmpy2).1 [1, 2] 4 3 (List.cons_ne_nil 1 [2])
      hvalid.superincreasing (by decide) (by decide)
  · have hrun := (all_decrypted_iff searchGmpy2).2 2 (by decide) _ _ _ genKey_two
    exact hrun

end Whuctf.Lattice
