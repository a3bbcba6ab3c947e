import Whuctf.PEShellcode.BlowfishEngine

/-!
# Decryption inverts encryption on a keyed engine

`Encrypt` and `Decrypt` apply permutations of the 8-byte blocks that are inverse to one another
(`blockPerm_pDecrypt`); what remains is their passage over a buffer.

The buffer loop is settled once for both directions: `cryptBlocks_processed` carries
`Processed`, the state of the buffers after some blocks, through the loop, for every pair of
pointers with the destination at or below the source or past its end (`crypt_aliasing`).
-/

namespace Whuctf.PEShellcode

open BlowfishEngine

/-! ## The buffer loop

Source and destination may overlap as long as the destination does not run ahead of what is still to be
read.  The invariant says what of the buffers is done and that the rest is as it was. -/

/-- The buffers after `k` blocks: the first `k` destination blocks are the images of the
source blocks of the original memory `m₀`, and no byte outside them has changed. -/
structure Processed (f : Block → Block) (m₀ : Memory ℕ) (src dst k : ℕ) (m : Memory ℕ) :
    Prop where
  image : ∀ j < k, blockAt m (dst + 8 * j) = f (blockAt m₀ (src + 8 * j))
  frame : ∀ x, ¬(dst ≤ x ∧ x < dst + 8 * k) → m x = m₀ x

lemma blockAt_congr {m m' : Memory ℕ} {a : ℕ} (h : ∀ i < 8, m (a + i) = m' (a + i)) :
    blockAt m a = blockAt m' a := by
  have h0 := h 0 (by omega)
  rw [Nat.add_zero] at h0
  simp only [blockAt, h0, h 1 (by omega), h 2 (by omega), h 3 (by omega), h 4 (by omega),
    h 5 (by omega), h 6 (by omega), h 7 (by omega)]

lemma apply_eq_of_blockAt_eq {m m' : Memory ℕ} {a b : ℕ} (h : blockAt m a = blockAt m' b)
    {i : ℕ} (hi : i < 8) : m (a + i) = m' (b + i) := by
  have hget := congrArg (fun v : Block => v.toList[i]?) h
  rcases i with _ | _ | _ | _ | _ | _ | _ | _ | i
  all_goals first | (simpa [blockAt] using hget) | omega

lemma blockAt_write_self (m : Memory ℕ) (a : ℕ) (b : Block) :
    blockAt (m.write a b.toList) a = b := by
  have hread : (m.write a b.toList).read a 8 = b.toList := by
    have hself := Memory.read_write_self m a b.toList (fun i _ j _ h => by simpa using h)
    simpa using hself
  have hblock : (blockAt (m.write a b.toList) a).toList = (m.write a b.toList).read a 8 := rfl
  exact Vector.toList_inj.mp (hblock.trans hread)

lemma write_block_frame (m : Memory ℕ) (a x : ℕ) (b : Block) (hx : ¬(a ≤ x ∧ x < a + 8)) :
    m.write a b.toList x = m x := by
  apply Memory.write_apply_of_ne
  intro i hi
  have hi8 : i < 8 := by simpa using hi
  simp only [Nat.cast_id]
  omega

/-- One turn of the buffer loop.  The block about to be read has not been overwritten, since
the destination lies at or below the source or past its end. -/
lemma Processed.step {f : Block → Block} {m₀ m : Memory ℕ} {src dst k n : ℕ}
    (h : Processed f m₀ src dst k m) (hk : 8 * (k + 1) ≤ n)
    (hpos : dst ≤ src ∨ src + n ≤ dst) :
    Processed f m₀ src dst (k + 1)
      (m.write (dst + 8 * k) (f (blockAt m (src + 8 * k))).toList) := by
  have hunread : blockAt m (src + 8 * k) = blockAt m₀ (src + 8 * k) :=
    blockAt_congr fun i hi => h.frame _ (by omega)
  refine ⟨fun j hj => ?_, fun x hx => ?_⟩
  · by_cases hjk : j = k
    · rw [hjk, blockAt_write_self, hunread]
    · rw [← h.image j (by omega)]
      exact blockAt_congr fun i hi => write_block_frame _ _ _ _ (by omega)
  · rw [write_block_frame _ _ _ _ (by omega)]
    exact h.frame x (by omega)

/-- The whole loop: `blocks` more blocks are processed, and both pointers stand behind the
last of them. -/
lemma cryptBlocks_processed (e : BlowfishEngine) (p : Vector ULong 18) {m₀ m : Memory ℕ}
    {src dst k n : ℕ} (blocks : ℕ) (h : Processed (blockPerm e p) m₀ src dst k m)
    (hn : 8 * (k + blocks) ≤ n) (hpos : dst ≤ src ∨ src + n ≤ dst) :
    ∃ m', cryptBlocks e p blocks m (src + 8 * k) (dst + 8 * k) =
        (m', src + 8 * (k + blocks), dst + 8 * (k + blocks)) ∧
      Processed (blockPerm e p) m₀ src dst (k + blocks) m' := by
  induction blocks generalizing k m with
  | zero => exact ⟨m, rfl, h⟩
  | succ blocks ih =>
      have hnext := h.step (n := n) (by omega) hpos
      obtain ⟨m', hrun, hdone⟩ := ih hnext (by omega)
      refine ⟨m', ?_, ?_⟩
      · rw [cryptBlocks, processBlock_eq_write]
        simpa only [Nat.mul_add, Nat.mul_one, Nat.add_assoc, Nat.add_comm 1 blocks] using hrun
      · simpa only [Nat.add_assoc, Nat.add_comm 1 blocks] using hdone

/-- What a keyed call leaves behind: whole blocks are mapped, the tail is copied, and nothing
else changes. -/
structure Translated (f : Block → Block) (m : Memory ℕ) (src dst n : ℕ) (m' : Memory ℕ) :
    Prop where
  image : ∀ j < n / 8, blockAt m' (dst + 8 * j) = f (blockAt m (src + 8 * j))
  tail : ∀ i, 8 * (n / 8) ≤ i → i < n → m' (dst + i) = m (src + i)
  frame : ∀ x, ¬(dst ≤ x ∧ x < dst + n) → m' x = m x

/-- The final `memmove` of the bytes after the last whole block. -/
lemma Processed.memmove_tail {f : Block → Block} {m₀ m : Memory ℕ} {src dst n : ℕ}
    (h : Processed f m₀ src dst (n / 8) m) (hpos : dst ≤ src ∨ src + n ≤ dst) :
    Translated f m₀ src dst n
      (memmove m (dst + 8 * (n / 8)) (src + 8 * (n / 8)) (n % 8)) := by
  have hdiv := Nat.div_add_mod n 8
  have hread : ∀ i, 8 * (n / 8) ≤ i → i < n →
      memmove m (dst + 8 * (n / 8)) (src + 8 * (n / 8)) (n % 8) (dst + i) = m₀ (src + i) := by
    intro i hi hin
    have hoff := Memory.write_apply_add m (dst + 8 * (n / 8))
      (m.read (src + 8 * (n / 8)) (n % 8)) (fun a _ b _ hab => by simpa using hab)
      (i := i - 8 * (n / 8)) (by simp; omega)
    simp only [Memory.getElem_read, Nat.cast_id] at hoff
    rw [show dst + 8 * (n / 8) + (i - 8 * (n / 8)) = dst + i by omega,
      show src + 8 * (n / 8) + (i - 8 * (n / 8)) = src + i by omega] at hoff
    rw [memmove, hoff]
    exact h.frame _ (by omega)
  have hkeep : ∀ x, ¬(dst + 8 * (n / 8) ≤ x ∧ x < dst + n) →
      memmove m (dst + 8 * (n / 8)) (src + 8 * (n / 8)) (n % 8) x = m x := by
    intro x hx
    apply Memory.write_apply_of_ne
    intro i hi
    simp only [Memory.length_read] at hi
    simp only [Nat.cast_id]
    omega
  refine ⟨fun j hj => ?_, hread, fun x hx => ?_⟩
  · rw [← h.image j hj]
    exact blockAt_congr fun i hi => hkeep _ (by omega)
  · rw [hkeep x (by omega)]
    exact h.frame x (by omega)

/-- **A keyed call.**  For non-null pointers with the destination at or below the source or
past its end, the call returns the number of bytes in whole blocks and translates them. -/
lemma crypt_keyed (e : BlowfishEngine) (p : Vector ULong 18) (m : Memory ℕ) {src dst : ℕ}
    (n : ℕ) (hkeyed : e.isKeyed = true) (hsrc : src ≠ 0) (hdst : dst ≠ 0)
    (hpos : dst ≤ src ∨ src + n ≤ dst) :
    (e.crypt p m src n dst).1 = ((8 * (n / 8) : ℕ) : ℤ) ∧
      Translated (blockPerm e p) m src dst n (e.crypt p m src n dst).2 := by
  by_cases hn : n = 0
  · subst hn
    rw [crypt, if_pos (Or.inr (by simp))]
    exact ⟨rfl, fun j hj => absurd hj (by omega), fun i _ hi => absurd hi (by omega),
      fun x _ => rfl⟩
  · have hstart : Processed (blockPerm e p) m src dst 0 m :=
      ⟨fun j hj => absurd hj (by omega), fun x _ => rfl⟩
    obtain ⟨m', hrun, hdone⟩ := cryptBlocks_processed e p (n := n) (n / 8) hstart
      (by omega) hpos
    simp only [Nat.mul_zero, Nat.add_zero, Nat.zero_add] at hrun hdone
    have hblocks : ((n : ℤ).tdiv 8).toNat = n / 8 := by
      rw [show (8 : ℤ) = ((8 : ℕ) : ℤ) by rfl, ← Int.ofNat_tdiv, Int.toNat_natCast]
    have hencrypted : (n : ℤ).tdiv 8 * 8 = ((8 * (n / 8) : ℕ) : ℤ) := by
      rw [show (8 : ℤ) = ((8 : ℕ) : ℤ) by rfl, ← Int.ofNat_tdiv]
      push_cast
      ring
    rw [crypt, if_neg (by simp [hsrc, hn])]
    simp only [hdst, if_false, hkeyed, if_true, hblocks, hrun, hencrypted, Nat.cast_lt]
    refine ⟨trivial, ?_⟩
    by_cases htail : 8 * (n / 8) < n
    · rw [if_pos htail, show ((n : ℤ) - ((8 * (n / 8) : ℕ) : ℤ)).toNat = n % 8 by omega]
      exact hdone.memmove_tail hpos
    · rw [if_neg htail]
      exact ⟨hdone.image, fun i hi hin => absurd hin (by omega),
        fun x hx => hdone.frame x (by omega)⟩

/-! ## The round trip -/

/-- A translation followed by its inverse restores every byte, in place or from one region to another. -/
lemma Translated.roundTrip {f g : Block → Block} {m m₁ m₂ : Memory ℕ} {a b c n : ℕ}
    (hfg : ∀ x, g (f x) = x) (h₁ : Translated f m a b n m₁) (h₂ : Translated g m₁ b c n m₂) :
    ∀ i < n, m₂ (c + i) = m (a + i) := by
  intro i hi
  have hdiv := Nat.div_add_mod i 8
  by_cases hblock : i / 8 < n / 8
  · have hb : blockAt m₂ (c + 8 * (i / 8)) = blockAt m (a + 8 * (i / 8)) := by
      rw [h₂.image _ hblock, h₁.image _ hblock, hfg]
    have hbyte := apply_eq_of_blockAt_eq hb (Nat.mod_lt i (by omega : 0 < 8))
    rwa [Nat.add_assoc, hdiv, Nat.add_assoc, hdiv] at hbyte
  · rw [h₂.tail i (by omega) hi, h₁.tail i (by omega) hi]

lemma le_or_end_le_of_apart {a b n : ℕ} (h : Memory.Apart a n b n) : b ≤ a ∨ a + n ≤ b := by
  by_contra hcon
  have hmeet := h (b - a) (by omega) 0 (by omega)
  simp only [Nat.cast_id, Nat.add_zero] at hmeet
  omega

/-- Two keyed calls in a row under inverse permutations, between buffers that do not overlap. -/
lemma crypt_crypt {e : BlowfishEngine} {p q : Vector ULong 18} (hkeyed : e.isKeyed = true)
    (hinv : blockPerm e q = (blockPerm e p).symm) (m : Memory ℕ) {a b c n : ℕ}
    (ha : a ≠ 0) (hb : b ≠ 0) (hc : c ≠ 0) (hab : Memory.Apart a n b n)
    (hbc : Memory.Apart b n c n) :
    (e.crypt p m a n b).1 = ((8 * (n / 8) : ℕ) : ℤ) ∧
      Translated (blockPerm e p) m a b n (e.crypt p m a n b).2 ∧
      (e.crypt q (e.crypt p m a n b).2 b n c).1 = ((8 * (n / 8) : ℕ) : ℤ) ∧
      Translated (blockPerm e p).symm (e.crypt p m a n b).2 b c n
        (e.crypt q (e.crypt p m a n b).2 b n c).2 ∧
      (e.crypt q (e.crypt p m a n b).2 b n c).2.read c n = m.read a n := by
  obtain ⟨hret₁, h₁⟩ := crypt_keyed e p m n hkeyed ha hb (le_or_end_le_of_apart hab)
  obtain ⟨hret₂, h₂⟩ := crypt_keyed e q (e.crypt p m a n b).2 n hkeyed hb hc
    (le_or_end_le_of_apart hbc)
  rw [hinv] at h₂
  refine ⟨hret₁, h₁, hret₂, h₂, List.ext_getElem (by simp) fun i hi _ => ?_⟩
  simp only [Memory.getElem_read]
  exact h₁.roundTrip (fun x => Equiv.symm_apply_apply _ x) h₂ i (by simpa using hi)

/-- **Encryption and decryption are mutually inverse.**  After `Submit_Key` with a key of
length at least one, whatever the engine held before, and for buffers `a`, `b`, `c` of any
length `n` of which neighbours do not overlap: encrypting `a` into `b` and decrypting `b` into
`c` restores the bytes, and so do the two calls in the other order.  Each call returns the
number of bytes in whole blocks; these are mapped by one permutation of the blocks and its
inverse, and the tail is copied. -/
theorem encrypt_decrypt_inverse (e₀ : BlowfishEngine) (k : Memory ℕ) (key : ℕ) (length : ℤ)
    (hkey : key ≠ 0) (hlength : 1 ≤ length) (m : Memory ℕ) (a b c n : ℕ) (ha : a ≠ 0)
    (hb : b ≠ 0) (hc : c ≠ 0) (hab : Memory.Apart a n b n) (hbc : Memory.Apart b n c n) :
    let e := submitKey e₀ k key length
    let E := blockPerm e e.pEncrypt
    let enc := e.encrypt m a n b
    let encDec := e.decrypt enc.2 b n c
    let dec := e.decrypt m a n b
    let decEnc := e.encrypt dec.2 b n c
    (enc.1 = ((8 * (n / 8) : ℕ) : ℤ) ∧ Translated E m a b n enc.2 ∧
      encDec.1 = ((8 * (n / 8) : ℕ) : ℤ) ∧ Translated E.symm enc.2 b c n encDec.2 ∧
      encDec.2.read c n = m.read a n) ∧
    (dec.1 = ((8 * (n / 8) : ℕ) : ℤ) ∧ Translated E.symm m a b n dec.2 ∧
      decEnc.1 = ((8 * (n / 8) : ℕ) : ℤ) ∧ Translated E dec.2 b c n decEnc.2 ∧
      decEnc.2.read c n = m.read a n) := by
  intro e E enc encDec dec decEnc
  obtain ⟨hkeyed, hrev⟩ := submitKey_reversed e₀ k length hkey (by omega)
  have hED : blockPerm e e.pDecrypt = (blockPerm e e.pEncrypt).symm := blockPerm_pDecrypt hrev
  have hDE : blockPerm e e.pEncrypt = (blockPerm e e.pDecrypt).symm := by rw [hED, Equiv.symm_symm]
  refine ⟨crypt_crypt hkeyed hED m ha hb hc hab hbc, ?_⟩
  have hback := crypt_crypt hkeyed hDE m ha hb hc hab hbc
  rwa [hED, Equiv.symm_symm] at hback

/-- The round trip at a one-byte key and a buffer of one block and five tail bytes. -/
theorem encrypt_decrypt_inverse_thirteen :
    let e := submitKey init (fun _ => 7) 1 1
    let m : Memory ℕ := fun x => BitVec.ofNat 8 x
    (e.decrypt (e.encrypt m 16 13 64).2 64 13 128).2.read 128 13 = m.read 16 13 :=
  (encrypt_decrypt_inverse init (fun _ => 7) 1 1 (by decide) (by decide)
    (fun x => BitVec.ofNat 8 x) 16 64 128 13 (by decide) (by decide) (by decide)
    (fun i hi j hj => by simp only [Nat.cast_id]; omega)
    (fun i hi j hj => by simp only [Nat.cast_id]; omega)).1.2.2.2.2

/-! ## Overlapping buffers -/

/-- A null destination stands for the source, so the text is translated in place. -/
lemma crypt_null_destination (e : BlowfishEngine) (p : Vector ULong 18) (m : Memory ℕ) (src : ℕ)
    (length : ℤ) : e.crypt p m src length 0 = e.crypt p m src length src := by
  by_cases hsrc : src = 0
  · rw [crypt, crypt, if_pos (Or.inl hsrc), if_pos (Or.inl hsrc)]
  · simp only [crypt, if_true, if_neg hsrc]

lemma crypt_null_source (e : BlowfishEngine) (p : Vector ULong 18) (m : Memory ℕ) (length : ℤ)
    (dst : ℕ) : e.crypt p m 0 length dst = (0, m) := by
  rw [crypt, if_pos (Or.inl rfl)]

/-- A keyed call whose destination may be null, which stands for the source. -/
lemma crypt_translated {e : BlowfishEngine} (hkeyed : e.isKeyed = true) (p : Vector ULong 18)
    (m : Memory ℕ) {src dst n : ℕ} (hsrc : src ≠ 0) (hpos : dst ≤ src ∨ src + n ≤ dst) :
    (e.crypt p m src n dst).1 = ((8 * (n / 8) : ℕ) : ℤ) ∧
      Translated (blockPerm e p) m src (if dst = 0 then src else dst) n
        (e.crypt p m src n dst).2 := by
  by_cases hdst : dst = 0
  · rw [if_pos hdst, hdst, crypt_null_destination]
    exact crypt_keyed e p m n hkeyed hsrc hsrc (Or.inl le_rfl)
  · rw [if_neg hdst]
    exact crypt_keyed e p m n hkeyed hsrc hdst hpos

/-- **Aliasing.**  For a keyed engine and a source that is not null, with the destination at or below
the source or past its end, or null for the source itself: the whole blocks of the destination are the
images of the original source blocks under the permutation that `Process_Block` applies, its tail is
the original tail, no other byte changes, and the call returns the number of bytes in whole blocks.
A null source makes the call return zero and change nothing. -/
theorem crypt_aliasing (e : BlowfishEngine) (hkeyed : e.isKeyed = true) (m : Memory ℕ)
    (src dst n : ℕ) (hpos : dst ≤ src ∨ src + n ≤ dst) :
    (∀ (p : Vector ULong 18) (a b : ℕ),
      e.processBlock m a b p = m.write b (blockPerm e p (blockAt m a)).toList) ∧
    (src ≠ 0 →
      ((e.encrypt m src n dst).1 = ((8 * (n / 8) : ℕ) : ℤ) ∧
        Translated (blockPerm e e.pEncrypt) m src (if dst = 0 then src else dst) n
          (e.encrypt m src n dst).2) ∧
      (e.decrypt m src n dst).1 = ((8 * (n / 8) : ℕ) : ℤ) ∧
        Translated (blockPerm e e.pDecrypt) m src (if dst = 0 then src else dst) n
          (e.decrypt m src n dst).2) ∧
    (src = 0 → e.encrypt m src n dst = (0, m) ∧ e.decrypt m src n dst = (0, m)) := by
  refine ⟨fun p a b => processBlock_eq_write e m a b p, ?_, ?_⟩
  · intro hsrc
    exact ⟨crypt_translated hkeyed e.pEncrypt m hsrc hpos,
      crypt_translated hkeyed e.pDecrypt m hsrc hpos⟩
  · rintro rfl
    exact ⟨crypt_null_source e _ m n dst, crypt_null_source e _ m n dst⟩

/-- A buffer of one block and five tail bytes, moved down over itself. -/
theorem crypt_aliasing_overlap :
    let e := submitKey init (fun _ => 7) 1 1
    (e.encrypt (BitVec.ofNat 8) 16 13 12).1 = 8 :=
  ((crypt_aliasing (submitKey init (fun _ => 7) 1 1)
    (submitKey_reversed init (fun _ => 7) 1 (by decide) (by decide)).1
    (BitVec.ofNat 8) 16 12 13 (Or.inl (by decide))).2.1 (by decide)).1.1

/-- The guard on a null source is not that of a block count: nothing is translated. -/
theorem null_source_not_translated :
    ¬∀ e : BlowfishEngine, e.isKeyed = true → ∀ (m : Memory ℕ) (src dst n : ℕ),
      dst ≤ src ∨ src + n ≤ dst →
      (e.encrypt m src n dst).1 = ((8 * (n / 8) : ℕ) : ℤ) ∧
        Translated (blockPerm e e.pEncrypt) m src (if dst = 0 then src else dst) n
          (e.encrypt m src n dst).2 := by
  intro hclaim
  obtain ⟨hkeyed, -⟩ := submitKey_reversed init (fun _ => 7) 1 (Nat.one_ne_zero) (by decide)
  have hcall := (hclaim _ hkeyed (fun _ => 0#8) 0 8 8 (Or.inr le_rfl)).1
  rw [encrypt, crypt_null_source] at hcall
  exact absurd hcall (by decide)

end Whuctf.PEShellcode
