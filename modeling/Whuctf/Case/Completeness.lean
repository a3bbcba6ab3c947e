import Whuctf.Case.Group

/-!
# Completeness of the case search

The search loop on the upper-cased encoding of a text over `S` ends with that text among its flags.
Where the length of the text is a multiple of three, the flags are exactly the texts over `S` with
that upper-cased encoding: no group is padded, so the encoding of a text is the concatenation of those
of its parts, and the texts with a given encoding are the product of the decodings of its groups.

In which order the loop puts its texts depends on the order of a set, which is left open.  What it ends
with is therefore stated as a set of texts, and a pass of the loop as a product of languages
(`preimages_append`).
-/

namespace Whuctf.Case

open Python Base64

/-! ## The groups of a text -/

lemma groups_append {s : List Char} (hs : s.length = 4) (c : List Char) :
    groups (s ++ c) = s :: groups c := by
  have hcount : ((s ++ c).length + 4 - 1) / 4 = (c.length + 4 - 1) / 4 + 1 := by
    rw [List.length_append, hs]
    omega
  have hfirst : slice (s ++ c) (0 * 4) (0 * 4 + 4) = s := by
    simp [slice, ← hs]
  have hlater : ∀ i,
      slice (s ++ c) ((i + 1) * 4) ((i + 1) * 4 + 4) = slice c (i * 4) (i * 4 + 4) := by
    intro i
    have hstart : (i + 1) * 4 = s.length + i * 4 := by omega
    simp [slice, hstart]
  simp only [groups, rangeStep, hcount, List.range_succ_eq_map, List.map_cons, List.map_map, hfirst]
  congr 1
  apply List.map_congr_left
  intro i _
  exact hlater i

/-- An encoded text is the encoding of its first three characters before that of the others. -/
lemma upperBase64_cons (x y z : Char) (rest : List Char) :
    upperBase64 (x :: y :: z :: rest) = upperBase64 [x, y, z] ++ upperBase64 rest := by
  have hpads : (3 - (rest.length + 1 + 1 + 1) % 3) % 3 = (3 - rest.length % 3) % 3 := by omega
  simp [upperBase64, upper, b64encode, encodeBare, Utf8.encodeAscii, sextets, hpads]

lemma length_upperBase64 (t : List Char) : (upperBase64 t).length = 4 * ((t.length + 2) / 3) := by
  have hpads := length_sextets_add_pads (Utf8.encodeAscii t)
  rw [Utf8.encodeAscii, List.length_map] at hpads
  simpa [upperBase64, upper, b64encode, encodeBare, Utf8.encodeAscii] using hpads

lemma length_group {t : List Char} (hpos : 0 < t.length) (hthree : t.length ≤ 3) :
    (upperBase64 t).length = 4 := by
  rw [length_upperBase64]
  omega

/-- The parts of at most three characters that the groups of an encoded text encode. -/
def parts : List Char → List (List Char)
  | [] => []
  | [x] => [[x]]
  | [x, y] => [[x, y]]
  | x :: y :: z :: rest => [x, y, z] :: parts rest

lemma parts_spec : ∀ {text : List Char}, ∀ t ∈ parts text,
    0 < t.length ∧ t.length ≤ 3 ∧ ∀ c ∈ t, c ∈ text
  | [], _, ht => by simp [parts] at ht
  | [x], t, ht => by
      obtain rfl := List.mem_singleton.mp ht
      simp
  | [x, y], t, ht => by
      obtain rfl := List.mem_singleton.mp ht
      simp
  | x :: y :: z :: rest, t, ht => by
      rcases List.mem_cons.mp ht with rfl | ht
      · simp
      · obtain ⟨hpos, hthree, hmem⟩ := parts_spec t ht
        exact ⟨hpos, hthree, fun c hc => by simp [hmem c hc]⟩

lemma flatten_parts : ∀ text : List Char, (parts text).flatten = text
  | [] => rfl
  | [x] => rfl
  | [x, y] => rfl
  | x :: y :: z :: rest => by simp [parts, flatten_parts rest]

lemma groups_upperBase64 : ∀ text : List Char,
    groups (upperBase64 text) = (parts text).map upperBase64
  | [] => rfl
  | [x] => by
      have hlength : (upperBase64 [x]).length = 4 := length_group (by simp) (by simp)
      rw [← List.append_nil (upperBase64 [x]), groups_append hlength]
      rfl
  | [x, y] => by
      have hlength : (upperBase64 [x, y]).length = 4 := length_group (by simp) (by simp)
      rw [← List.append_nil (upperBase64 [x, y]), groups_append hlength]
      rfl
  | x :: y :: z :: rest => by
      rw [upperBase64_cons, groups_append (length_group (by simp) (by simp)),
        groups_upperBase64 rest, parts, List.map_cons]

section Loop

variable (order : SetOrder) {text : List Char} (htext : ∀ c ∈ text, c ∈ S)

/-- The texts that the decodings of the groups of `c` make up. -/
def candidates (c : List Char) : Language Char := ((groups c).map (texts ∘ decodings)).prod

include htext in
lemma handled_groups : ∀ s ∈ groups (upperBase64 text), Handled order s := by
  intro s hs
  rw [groups_upperBase64] at hs
  obtain ⟨t, ht, rfl⟩ := List.mem_map.mp hs
  obtain ⟨hpos, hthree, hmem⟩ := parts_spec t ht
  exact handled_upperBase64 order (fun c hc => htext c (hmem c hc)) hpos hthree

include htext in
/-- A text is made up of decodings of the groups of its encoding. -/
lemma self_mem_candidates : text ∈ candidates (upperBase64 text) := by
  have hflatten : ∀ ts : List (List Char), (∀ t ∈ ts, ∀ c ∈ t, c ∈ S) →
      ts.flatten ∈ ((ts.map upperBase64).map (texts ∘ decodings)).prod := by
    intro ts hts
    induction ts with
    | nil => exact Language.nil_mem_one
    | cons t ts ih =>
      rw [List.forall_mem_cons] at hts
      exact Language.append_mem_mul (self_mem_decodings hts.1) (ih hts.2)
  have hparts := hflatten (parts text) fun t ht c hc => htext c ((parts_spec t ht).2.2 c hc)
  rwa [flatten_parts, ← groups_upperBase64] at hparts

include htext in
lemma mem_searchLoop_iff (hne : text ≠ []) (x : List Char) :
    x ∈ searchLoop order (upperBase64 text) ↔ x ∈ candidates (upperBase64 text) := by
  have hprefixes :
      prefixes (searchLoop order (upperBase64 text)) = candidates (upperBase64 text) := by
    rw [searchLoop, prefixes_foldl_searchStep order (handled_groups order htext) [], prefixes,
      if_pos rfl, one_mul, candidates]
  have hsome : searchLoop order (upperBase64 text) ≠ [] := by
    intro hnone
    have hself := self_mem_candidates htext
    rw [← hprefixes, hnone, prefixes, if_pos rfl, Language.mem_one] at hself
    exact hne hself
  rw [← hprefixes, mem_prefixes hsome]

end Loop

/-! ## Texts whose length is a multiple of three

Without padding a group of the encoding stands for three characters, whichever decoding of it is taken.
So lengths are kept, and a text with the same encoding splits into groups at the same places. -/

/-- The texts over `S` whose upper-cased encoding is `c`: what the search is to find, as a language, so
that texts one behind the other are a product. -/
def preimages (c : List Char) : Language Char := {x | (∀ ch ∈ x, ch ∈ S) ∧ upperBase64 x = c}

lemma mem_preimages {c x : List Char} :
    x ∈ preimages c ↔ (∀ ch ∈ x, ch ∈ S) ∧ upperBase64 x = c :=
  Iff.rfl

lemma preimages_nil : preimages [] = 1 := by
  ext x
  rw [mem_preimages, Language.mem_one]
  constructor
  · rintro ⟨_, h⟩
    have hlength := length_upperBase64 x
    rw [h, List.length_nil] at hlength
    exact List.length_eq_zero_iff.mp (by omega)
  · rintro rfl
    exact ⟨by simp, rfl⟩

/-- The encoding of three characters is not padded, so it is the characters of their values,
upper-cased. -/
lemma upperBase64_eq {t : List Char} (h : t.length = 3) :
    upperBase64 t = upper ((values t).map charOf) := by
  simp [upperBase64, values, b64encode, encodeBare, Utf8.encodeAscii, h]

lemma length_values {t : List Char} (h : t.length = 3) : (values t).length = 4 := by
  rw [values, length_sextets, Utf8.encodeAscii, List.length_map, h]

/-- Only three characters have the encoding of three characters: fewer would be padded, and more take
more characters. -/
lemma length_of_upperBase64_eq {t d : List Char} (ht : t.length = 3)
    (h : upperBase64 d = upperBase64 t) : d.length = 3 := by
  have hletter : ∀ v < 64, (charOf v).toUpper ≠ '=' := by decide +kernel
  have hunpadded : '=' ∉ upperBase64 t := by
    intro hmem
    rw [upperBase64_eq ht] at hmem
    obtain ⟨_, hchar, hupper⟩ := List.mem_map.mp hmem
    obtain ⟨v, hv, rfl⟩ := List.mem_map.mp hchar
    exact hletter v (lt_of_mem_values v hv) hupper
  have hlength : (upperBase64 d).length = 4 * ((t.length + 2) / 3) := by rw [h, length_upperBase64]
  rw [length_upperBase64, ht] at hlength
  by_contra hne
  have hpads : (3 - d.length % 3) % 3 ≠ 0 := by omega
  apply hunpadded
  rw [← h]
  simp [upperBase64, upper, b64encode, Utf8.encodeAscii, hpads]

/-- The decodings of a group that is not padded are the texts with its encoding. -/
lemma texts_decodings_three {t : List Char} (ht : t.length = 3) :
    texts (decodings (upperBase64 t)) = preimages (upperBase64 t) := by
  ext d
  rw [mem_texts, mem_decodings_upperBase64, mem_preimages]
  apply and_congr_right
  intro hd
  constructor
  · rintro ⟨ws, hws, hbytes⟩
    have hlt := lt_of_sameLetters lt_of_mem_values hws
    have hlength : ws.length = 4 := by rw [← hws.length_eq, length_values ht]
    have hvalues : values d = ws := by
      rw [values, hbytes, sextets_bytesOf hlt (by rw [hlength])]
    have hthree : d.length = 3 := by
      rw [← hvalues, values, length_sextets, Utf8.encodeAscii, List.length_map] at hlength
      omega
    rw [upperBase64_eq hthree, upperBase64_eq ht, hvalues,
      upper_map_charOf_eq_iff lt_of_mem_values hlt]
    exact hws
  · intro h
    have hthree := length_of_upperBase64_eq ht h
    rw [upperBase64_eq hthree, upperBase64_eq ht,
      upper_map_charOf_eq_iff lt_of_mem_values lt_of_mem_values] at h
    exact ⟨values d, h, (bytesOf_sextets _).symm⟩

lemma upperBase64_append {t : List Char} (ht : t.length = 3) (rest : List Char) :
    upperBase64 (t ++ rest) = upperBase64 t ++ upperBase64 rest := by
  obtain ⟨x, y, z, rfl⟩ := List.length_eq_three.mp ht
  exact upperBase64_cons x y z rest

lemma preimages_append {t : List Char} (ht : t.length = 3) (c : List Char) :
    preimages (upperBase64 t ++ c) = preimages (upperBase64 t) * preimages c := by
  ext x
  rw [mem_preimages, Language.mem_mul]
  constructor
  · rintro ⟨hx, h⟩
    have hlength : (upperBase64 x).length = 4 + c.length := by
      rw [h, List.length_append, length_group (by omega) ht.le]
    rw [length_upperBase64] at hlength
    have hthree : 3 ≤ x.length := by
      by_contra hshort
      obtain rfl : c = [] := List.length_eq_zero_iff.mp (by omega)
      rw [List.append_nil] at h
      exact hshort (length_of_upperBase64_eq ht h).ge
    have htake : (x.take 3).length = 3 := by simp [hthree]
    have hsplit : upperBase64 (x.take 3) ++ upperBase64 (x.drop 3) = upperBase64 t ++ c := by
      rw [← upperBase64_append htake, List.take_append_drop, h]
    obtain ⟨hfirst, hrest⟩ := List.append_inj hsplit (by
      rw [length_group (by omega) htake.le, length_group (by omega) ht.le])
    exact ⟨x.take 3, ⟨fun ch hch => hx ch (List.mem_of_mem_take hch), hfirst⟩,
      x.drop 3, ⟨fun ch hch => hx ch (List.mem_of_mem_drop hch), hrest⟩, List.take_append_drop 3 x⟩
  · rintro ⟨d, ⟨hd, hdc⟩, y, ⟨hy, hyc⟩, rfl⟩
    refine ⟨?_, ?_⟩
    · intro ch hch
      rcases List.mem_append.mp hch with hch | hch
      · exact hd ch hch
      · exact hy ch hch
    · rw [upperBase64_append (length_of_upperBase64_eq ht hdc), hdc, hyc]

lemma candidates_eq_preimages : ∀ {text : List Char}, 3 ∣ text.length →
    candidates (upperBase64 text) = preimages (upperBase64 text)
  | [], _ => preimages_nil.symm
  | [x], h => by simp at h
  | [x, y], h => by simp at h
  | x :: y :: z :: rest, h => by
      have hrest : candidates (upperBase64 rest) = preimages (upperBase64 rest) :=
        candidates_eq_preimages (by simp only [List.length_cons] at h; omega)
      rw [upperBase64_cons, preimages_append rfl, ← hrest, ← texts_decodings_three rfl, candidates,
        groups_append (length_group (by simp) (by simp)), List.map_cons, List.prod_cons,
        Function.comp_apply, candidates]

/-- The search finds every text over `S` from the upper-cased encoding of its reversal, without ever
meeting a group with more decodings than the code handles; where the length of the text is a multiple
of three, it finds exactly the texts over `S` with that encoding. -/
theorem search_complete (order : SetOrder) (F : List Char) (hne : F ≠ []) (hF : ∀ ch ∈ F, ch ∈ S) :
    (∀ s ∈ groups (upperBase64 F.reverse), (order.listSet (decodings s)).length ≤ 2) ∧
      F.reverse ∈ searchLoop order (upperBase64 F.reverse) ∧
      (3 ∣ F.length → ∀ x, x ∈ searchLoop order (upperBase64 F.reverse) ↔
        (∀ ch ∈ x, ch ∈ S) ∧ upperBase64 x = upperBase64 F.reverse) := by
  have hreverse : ∀ ch ∈ F.reverse, ch ∈ S := fun ch hch => hF ch (List.mem_reverse.mp hch)
  have hmem := mem_searchLoop_iff order hreverse (by simpa using hne)
  refine ⟨fun s hs => (handled_groups order hreverse s hs).2, ?_, ?_⟩
  · exact (hmem _).mpr (self_mem_candidates hreverse)
  · intro hthree x
    rw [hmem, candidates_eq_preimages (by rwa [List.length_reverse]), mem_preimages]

/-- Sets listed in the order of the last occurrences of their elements. -/
def dedupOrder : SetOrder where
  listSet := List.dedup
  listUnion l l' := (l ++ l').dedup
  nodup_listSet := List.nodup_dedup
  mem_listSet _ _ := List.mem_dedup
  nodup_listUnion l l' := List.nodup_dedup (l ++ l')
  mem_listUnion l l' x := by rw [List.mem_dedup, List.mem_append]

theorem search_complete_ctf :
    (∀ s ∈ groups (upperBase64 ['F', 'T', 'C']), (dedupOrder.listSet (decodings s)).length ≤ 2) ∧
      ['F', 'T', 'C'] ∈ searchLoop dedupOrder (upperBase64 ['F', 'T', 'C']) ∧
      (3 ∣ 3 → ∀ x, x ∈ searchLoop dedupOrder (upperBase64 ['F', 'T', 'C']) ↔
        (∀ ch ∈ x, ch ∈ S) ∧ upperBase64 x = upperBase64 ['F', 'T', 'C']) :=
  search_complete dedupOrder ['C', 'T', 'F'] (by decide) (by
    intro ch hch
    simp only [List.mem_cons, List.not_mem_nil, or_false] at hch
    rcases hch with rfl | rfl | rfl <;> decide)

end Whuctf.Case
