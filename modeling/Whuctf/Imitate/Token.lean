import Whuctf.Library.Base64
import Whuctf.Library.Rsa
import Whuctf.Library.Utf8

/-!
# The signed tokens of the imitate challenge

`task.py` signs a payload with textbook RSA and joins header, payload and signature, each in base64url
without padding, by dots; the signature is its hexadecimal text.  `std.py` takes two tokens apart and
computes the greatest common divisor of two differences that the modulus divides.

Decoding a part gives back what was encoded for every length, although `std.py` appends four padding
characters to a part whose length is already a multiple of four.  Of `Crypto.Util.number` the
documented behaviour of `inverse` is assumed, and nothing of `bytes_to_long`.
-/

namespace Whuctf.Imitate

open Python Base64

/-! ## base64url -/

/-- `text.replace(old, new)` for single characters: each occurrence of the one is the other. -/
def replace (old new : Char) (text : List Char) : List Char :=
  text.map fun c => if c = old then new else c

/-- `b64urlEncode` of `task.py`: two characters are replaced, and replacing by the empty string removes
the padding. -/
def b64urlEncode (data : List Byte) : List Char :=
  (replace '/' '_' (replace '+' '-' (b64encode data))).filter (· ≠ '=')

/-- `b64urlDecode` of `std.py`: padding is appended by the length of the part, and the two characters
of the alphabet are replaced before the decoder sees them. -/
def b64urlDecode (data : List Char) : Except PyError (List Byte) :=
  let toPad := 4 - data.length % 4
  b64decode (replace '_' '/' (replace '-' '+' (data ++ List.replicate toPad '=')))

/-! ## The key and its tokens -/

/-- The functions of `Crypto.Util.number` that the challenge calls, with what it relies on. -/
structure CryptoNumber where
  bytesToLong : List Byte → ℕ
  inverse : ℕ → ℕ → Except PyError ℕ
  inverse_ok : ∀ {u v}, 1 < v → Nat.gcd u v = 1 → ∃ s, inverse u v = .ok s ∧ s < v ∧ u * s % v = 1

/-- The attributes of `JWT_RS256`: the key with its primes, and the gift with the prime that masks it. -/
structure JwtRS256 where
  p : ℕ
  q : ℕ
  n : ℕ
  e : ℕ
  d : ℕ
  modulus : ℕ
  gift : ℕ

/-- `JWT_RS256.__init__`, with the values that its calls of `getPrime` return. -/
def JwtRS256.init (lib : CryptoNumber) (p q modulus : ℕ) : Except PyError JwtRS256 := do
  let n := p * q
  let e := 0x10001
  let d ← lib.inverse e ((p - 1) * (q - 1))
  return { p, q, n, e, d, modulus, gift := d * n * e % modulus }

/-- The header of every token, as a JSON text, which does not depend on the payload. -/
def header : List Char := "\x7b\"alg\":\"RS256\",\"typ\":\"JWT\"\x7d".toList

/-- `JWT_RS256.encode`: header, payload and the hexadecimal text of the signature, each in base64url,
with dots between them. -/
def JwtRS256.encode (lib : CryptoNumber) (jwt : JwtRS256) (data : List Byte) : List Char :=
  let toSig := lib.bytesToLong data
  let signature := toSig ^ jwt.d % jwt.n
  b64urlEncode (Utf8.encodeAscii header) ++ '.' :: (b64urlEncode data ++
    '.' :: b64urlEncode (Utf8.encodeAscii (Numerals.numeral 16 signature)))

/-! ## The solver -/

/-- `int(b64urlDecode(part).decode(), 16)`, with the exceptions of the three functions. -/
def readSignature (part : List Char) : Except PyError ℕ := do
  intOf (← Utf8.decode (← b64urlDecode part)) 16

/-- STEP 1 of `std.py`: the greatest common divisor that it computes from two tokens. -/
def step1 (lib : CryptoNumber) (Ca Cb : List Char) : Except PyError ℕ := do
  let partsA := Ca.splitOn '.'
  let partsB := Cb.splitOn '.'
  let m1 ← b64urlDecode (← getItem partsA 1)
  let m2 ← b64urlDecode (← getItem partsB 1)
  let sa ← readSignature (← getItem partsA 2)
  let sb ← readSignature (← getItem partsB 2)
  let na : ℤ := (sa : ℤ) ^ 0x10001 - lib.bytesToLong m1
  let nb : ℤ := (sb : ℤ) ^ 0x10001 - lib.bytesToLong m2
  return Int.gcd na nb

/-! ## Parts decode to what was encoded

The encoder drops the padding and the decoder appends some, not always as much as was dropped.  What
counts is that there is enough to complete the last group. -/

lemma replace_append (old new : Char) (text text' : List Char) :
    replace old new (text ++ text') = replace old new text ++ replace old new text' :=
  List.map_append

lemma replace_pad {old new : Char} (h : '=' ≠ old) (k : ℕ) :
    replace old new (List.replicate k '=') = List.replicate k '=' := by
  simp [replace, h]

/-- The characters of base64url for a list of values: those of base64, with `-` and `_` for the last
two. -/
def urlText (values : List ℕ) : List Char := replace '/' '_' (replace '+' '-' (values.map charOf))

lemma urlText_cons (v : ℕ) (values : List ℕ) : urlText (v :: values) = urlText [v] ++ urlText values :=
  rfl

lemma urlText_digit : ∀ v < 64, '=' ∉ urlText [v] ∧ '.' ∉ urlText [v] := by decide +kernel

lemma urlText_digit_back : ∀ v < 64, replace '_' '/' (replace '-' '+' (urlText [v])) = [charOf v] := by
  decide +kernel

section UrlText

variable {values : List ℕ}

/-- The characters of base64url are neither padding nor separators, so a token comes apart where it was
put together. -/
lemma notMem_urlText (h : ∀ v ∈ values, v < 64) : '=' ∉ urlText values ∧ '.' ∉ urlText values := by
  induction values with
  | nil => simp [urlText, replace]
  | cons v rest ih =>
    have hdigit := urlText_digit v (h v List.mem_cons_self)
    have hrest := ih fun w hw => h w (List.mem_cons_of_mem v hw)
    rw [urlText_cons, List.mem_append, List.mem_append, not_or, not_or]
    exact ⟨⟨hdigit.1, hrest.1⟩, hdigit.2, hrest.2⟩

/-- The replacements of `std.py` undo those of `task.py`, on characters of the alphabet. -/
lemma urlText_back (h : ∀ v ∈ values, v < 64) :
    replace '_' '/' (replace '-' '+' (urlText values)) = values.map charOf := by
  induction values with
  | nil => rfl
  | cons v rest ih =>
    rw [urlText_cons, replace_append, replace_append, urlText_digit_back v (h v List.mem_cons_self),
      ih fun w hw => h w (List.mem_cons_of_mem v hw)]
    rfl

end UrlText

lemma b64urlEncode_eq (data : List Byte) : b64urlEncode data = urlText (sextets data) := by
  have hunpadded : '=' ∉ urlText (sextets data) :=
    (notMem_urlText fun _ hv => lt_of_mem_sextets hv).1
  have hchars : (urlText (sextets data)).filter (· ≠ '=') = urlText (sextets data) := by
    rw [List.filter_eq_self]
    intro c hc
    exact decide_eq_true fun heq => hunpadded (heq ▸ hc)
  have hpads : ∀ k, (List.replicate k '=').filter (· ≠ '=') = [] := by simp
  rw [b64urlEncode, b64encode, replace_append, replace_append, replace_pad (by decide),
    replace_pad (by decide), List.filter_append, hpads, List.append_nil]
  exact hchars

lemma dot_notMem_b64urlEncode (data : List Byte) : '.' ∉ b64urlEncode data := by
  rw [b64urlEncode_eq]
  exact (notMem_urlText fun _ hv => lt_of_mem_sextets hv).2

/-- The padding that `std.py` appends is long enough for every length: where it is too long, the
decoder skips what is left. -/
theorem b64urlDecode_b64urlEncode (data : List Byte) :
    b64urlDecode (b64urlEncode data) = .ok data := by
  have hlength : (b64urlEncode data).length =
      4 * (data.length / 3) + (data.length % 3 + (data.length % 3 + 2) / 3) := by
    rw [b64urlEncode_eq, ← length_sextets]
    simp [urlText, replace]
  have hback : replace '_' '/' (replace '-' '+' (b64urlEncode data)) = encodeBare data := by
    rw [b64urlEncode_eq]
    exact urlText_back fun _ hv => lt_of_mem_sextets hv
  have hpads : data.length % 3 = 0 ∨
      3 ≤ data.length % 3 + (4 - (b64urlEncode data).length % 4) := by
    have hresidue : data.length % 3 = 0 ∨ data.length % 3 = 1 ∨ data.length % 3 = 2 := by omega
    rcases hresidue with h | h | h
    · exact Or.inl h
    · rw [h] at hlength
      omega
    · rw [h] at hlength
      omega
  unfold b64urlDecode
  simp only
  rw [replace_append, replace_append, replace_pad (by decide), replace_pad (by decide), hback]
  exact b64decode_encodeBare hpads

/-! ## The parts of a token

No part has a dot, since base64url has none, so splitting a token gives the three parts back.  The
signature is read as a number after two decodings, of base64url and of hexadecimal digits. -/

lemma splitOn_parts {a b c : List Char} {sep : Char} (ha : sep ∉ a) (hb : sep ∉ b) (hc : sep ∉ c) :
    (a ++ sep :: (b ++ sep :: c)).splitOn sep = [a, b, c] := by
  rw [List.splitOn_append_cons_self_of_not_mem ha, List.splitOn_append_cons_self_of_not_mem hb,
    List.splitOn_eq_singleton hc]

lemma ascii_numeral {s : ℕ} : ∀ c ∈ Numerals.numeral 16 s, c.toNat < 0x80 := by
  have hdigit : ∀ d < 16, (Nat.digitChar d).toNat < 0x80 := by decide
  intro c hc
  obtain ⟨d, hd, rfl⟩ := List.mem_map.mp hc
  exact hdigit d (Numerals.lt_of_mem_digitsOf (by omega) hd)

/-- The signature part of a token is read back: it is the hexadecimal numeral, encoded. -/
lemma readSignature_numeral (s : ℕ) :
    readSignature (b64urlEncode (Utf8.encodeAscii (Numerals.numeral 16 s))) = .ok s := by
  rw [readSignature, b64urlDecode_b64urlEncode, ok_bind, Utf8.decode_encodeAscii ascii_numeral,
    ok_bind, intOf_numeral (by omega) (by omega)]

section Token

variable (lib : CryptoNumber) (jwt : JwtRS256)

/-- The signature of a payload: the number its bytes are, raised to the private exponent modulo the
product. -/
def JwtRS256.signature (data : List Byte) : ℕ := lib.bytesToLong data ^ jwt.d % jwt.n

lemma splitOn_encode (data : List Byte) : (jwt.encode lib data).splitOn '.' =
    [b64urlEncode (Utf8.encodeAscii header), b64urlEncode data,
      b64urlEncode (Utf8.encodeAscii (Numerals.numeral 16 (jwt.signature lib data)))] :=
  splitOn_parts (dot_notMem_b64urlEncode _) (dot_notMem_b64urlEncode _) (dot_notMem_b64urlEncode _)

/-- What STEP 1 computes from two tokens of one key: the greatest common divisor of two numbers that
the modulus divides. -/
lemma step1_encode (data₁ data₂ : List Byte) :
    step1 lib (jwt.encode lib data₁) (jwt.encode lib data₂) =
      .ok (Int.gcd ((jwt.signature lib data₁ : ℤ) ^ 0x10001 - lib.bytesToLong data₁)
        ((jwt.signature lib data₂ : ℤ) ^ 0x10001 - lib.bytesToLong data₂)) := by
  have hsecond : ∀ a b c : List Char, getItem [a, b, c] 1 = .ok b := fun _ _ _ => rfl
  have hthird : ∀ a b c : List Char, getItem [a, b, c] 2 = .ok c := fun _ _ _ => rfl
  unfold step1
  simp only [splitOn_encode, hsecond, hthird, ok_bind, b64urlDecode_b64urlEncode,
    readSignature_numeral]
  rfl

end Token

/-! ## The theorem -/

lemma dvd_gcd_sub {n a b x y : ℕ} (h : a ≡ x [MOD n]) (h' : b ≡ y [MOD n]) :
    n ∣ Int.gcd ((a : ℤ) - x) ((b : ℤ) - y) :=
  Nat.dvd_gcd (Int.natCast_dvd.mp h.symm.dvd) (Int.natCast_dvd.mp h'.symm.dvd)

lemma one_lt_totient {p q : ℕ} (hp : p.Prime) (hq : q.Prime) (hne : p ≠ q) :
    1 < (p - 1) * (q - 1) := by
  have hp2 := hp.two_le
  have hq2 := hq.two_le
  rcases Nat.lt_or_gt_of_ne hne with hlt | hlt
  · exact Nat.one_lt_mul_iff.mpr ⟨by omega, by omega, Or.inr (by omega)⟩
  · exact Nat.one_lt_mul_iff.mpr ⟨by omega, by omega, Or.inl (by omega)⟩

/-- What `__init__` makes of two primes that `e` can be inverted for: the private exponent is the
inverse, and the gift its product with the modulus and `e`. -/
lemma init_ok (lib : CryptoNumber) {p q : ℕ} (modulus : ℕ) (hp : p.Prime) (hq : q.Prime) (hne : p ≠ q)
    (hgcd : Nat.gcd 0x10001 ((p - 1) * (q - 1)) = 1) :
    ∃ jwt, JwtRS256.init lib p q modulus = .ok jwt ∧ jwt.n = p * q ∧
      0x10001 * jwt.d % ((p - 1) * (q - 1)) = 1 ∧ jwt.d < (p - 1) * (q - 1) ∧
      jwt.modulus = modulus ∧ jwt.gift = jwt.d * jwt.n * 0x10001 % modulus := by
  obtain ⟨d, hinverse, hlt, hd⟩ := lib.inverse_ok (one_lt_totient hp hq hne) hgcd
  refine ⟨{ p, q, n := p * q, e := 0x10001, d, modulus, gift := d * (p * q) * 0x10001 % modulus },
    ?_, rfl, hd, hlt, rfl, rfl⟩
  unfold JwtRS256.init
  simp only [hinverse, ok_bind]
  rfl

/-- A signature is below the modulus, and its power is the payload modulo the modulus, also for the
payloads that share a factor with it. -/
lemma signature_spec (lib : CryptoNumber) {jwt : JwtRS256} {p q e : ℕ} (hp : p.Prime) (hq : q.Prime)
    (hne : p ≠ q) (hn : jwt.n = p * q) (hd : e * jwt.d % ((p - 1) * (q - 1)) = 1) (data : List Byte) :
    jwt.signature lib data < p * q ∧
      jwt.signature lib data ^ e ≡ lib.bytesToLong data [MOD p * q] := by
  have hpos : 0 < e * jwt.d := by
    by_contra hzero
    rw [Nat.eq_zero_of_not_pos hzero, Nat.zero_mod] at hd
    omega
  have hinv : e * jwt.d ≡ 1 [MOD (p - 1) * (q - 1)] := by
    rw [Nat.ModEq, hd, Nat.mod_eq_of_lt (one_lt_totient hp hq hne)]
  unfold JwtRS256.signature
  rw [hn]
  constructor
  · exact Nat.mod_lt _ (Nat.mul_pos hp.pos hq.pos)
  · calc (lib.bytesToLong data ^ jwt.d % (p * q)) ^ e
        ≡ (lib.bytesToLong data ^ jwt.d) ^ e [MOD p * q] := (Nat.mod_modEq _ _).pow e
      _ ≡ lib.bytesToLong data [MOD p * q] := Rsa.pow_pow_modEq hp hq hne hpos hinv _

/-- Every token of a key splits into three parts, from which `std.py` reads the payload and a number
below the modulus that is the signature of the payload; the greatest common divisor that it computes
from two tokens is a multiple of the modulus. -/
theorem tokens_verify (lib : CryptoNumber) (p q modulus : ℕ) (hp : p.Prime) (hq : q.Prime)
    (hne : p ≠ q) (hgcd : Nat.gcd 0x10001 ((p - 1) * (q - 1)) = 1) :
    ∃ jwt, JwtRS256.init lib p q modulus = .ok jwt ∧ jwt.n = p * q ∧
      0x10001 * jwt.d % ((p - 1) * (q - 1)) = 1 ∧
      (∀ data, ∃ first payload last s,
        (jwt.encode lib data).splitOn '.' = [first, payload, last] ∧
          b64urlDecode payload = .ok data ∧ readSignature last = .ok s ∧
          s < p * q ∧ s ^ 0x10001 ≡ lib.bytesToLong data [MOD p * q]) ∧
      ∀ data₁ data₂, ∃ N, step1 lib (jwt.encode lib data₁) (jwt.encode lib data₂) = .ok N ∧
        p * q ∣ N := by
  obtain ⟨jwt, hinit, hn, hd, -⟩ := init_ok lib modulus hp hq hne hgcd
  have hspec := signature_spec lib hp hq hne hn hd
  refine ⟨jwt, hinit, hn, hd, ?_, ?_⟩
  · intro data
    exact ⟨_, _, _, jwt.signature lib data, splitOn_encode lib jwt data,
      b64urlDecode_b64urlEncode data, readSignature_numeral _, hspec data⟩
  · intro data₁ data₂
    have hdvd := dvd_gcd_sub (hspec data₁).2 (hspec data₂).2
    push_cast at hdvd
    exact ⟨_, step1_encode lib jwt data₁ data₂, hdvd⟩

/-- `Crypto.Util.number`, with inverses found by search, which have the behaviour that is assumed of
those of the package. -/
def searchNumber : CryptoNumber where
  bytesToLong bs := bs.foldl (fun n b => n * 0x100 + b.toNat) 0
  inverse := searchInverse .valueError
  inverse_ok := searchInverse_ok .valueError

theorem tokens_verify_fifteen :
    ∃ jwt, JwtRS256.init searchNumber 3 5 7 = .ok jwt ∧ jwt.n = 3 * 5 ∧
      0x10001 * jwt.d % ((3 - 1) * (5 - 1)) = 1 ∧
      (∀ data, ∃ first payload last s,
        (jwt.encode searchNumber data).splitOn '.' = [first, payload, last] ∧
          b64urlDecode payload = .ok data ∧ readSignature last = .ok s ∧
          s < 3 * 5 ∧ s ^ 0x10001 ≡ searchNumber.bytesToLong data [MOD 3 * 5]) ∧
      ∀ data₁ data₂, ∃ N,
        step1 searchNumber (jwt.encode searchNumber data₁) (jwt.encode searchNumber data₂) = .ok N ∧
          3 * 5 ∣ N :=
  tokens_verify searchNumber 3 5 7 Nat.prime_three Nat.prime_five (by decide) (by decide)

end Whuctf.Imitate
