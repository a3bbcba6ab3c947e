import Whuctf.Library.Memory

/-!
# The 256-byte element

`struct client_element_t`, the unit both programs exchange: `global_data` on either side and
the slots of the client.  A C call that stores bytes into an element goes through
`Element.overwrite`, which replaces the leading bytes and keeps the others.

Both programs have one such element as their `global_data`, and the client has five hundred more as its
slots.  They are written from the start only: a payload or what a `read` stored covers a prefix, and
the bytes behind it stay.
-/

namespace Whuctf.Client

/-- `struct client_element_t`, an array of 256 bytes: a slot of the client, and the buffer that is
synchronised between the programs. -/
abbrev Element := Vector Byte 256

namespace Element

/-- An element of `ret` instructions, as `client_init` fills the slots; a slot without code returns at
once when it is called. -/
def filler : Element := Vector.replicate 256 0xC3#8

/-- Store bytes at the start of an element; what does not fit into it is dropped. -/
def overwrite (e : Element) (bs : List Byte) : Element :=
  e.mapIdx fun i b => bs[i]?.getD b

lemma getElem_overwrite (e : Element) (bs : List Byte) (i : ℕ) (hi : i < 256) :
    (e.overwrite bs)[i] = bs[i]?.getD e[i] := by
  simp [overwrite]

@[simp] lemma overwrite_nil (e : Element) : e.overwrite [] = e := by
  apply Vector.ext
  intro i hi
  simp [getElem_overwrite]

/-- Storing 256 bytes forgets what was there, so the element is that of the bytes alone. -/
lemma overwrite_of_length {e e' : Element} {bs : List Byte} (h : bs.length = 256) :
    e.overwrite bs = e'.overwrite bs := by
  apply Vector.ext
  intro i hi
  rw [getElem_overwrite, getElem_overwrite, List.getElem?_eq_getElem (by omega)]
  rfl

@[simp] lemma overwrite_toList (e g : Element) : e.overwrite g.toList = g := by
  apply Vector.ext
  intro i hi
  simp [getElem_overwrite, hi]

/-- Storing bytes replaces the leading ones, as many as are stored, and keeps the others. -/
lemma toList_overwrite (e : Element) {bs : List Byte} (h : bs.length ≤ 256) :
    (e.overwrite bs).toList = bs ++ e.toList.drop bs.length := by
  refine List.ext_getElem (by simp; omega) fun i hi _ => ?_
  rw [Vector.getElem_toList, getElem_overwrite]
  by_cases hlt : i < bs.length
  · rw [List.getElem?_eq_getElem hlt, List.getElem_append_left hlt]
    rfl
  · have hge : bs.length ≤ i := by omega
    rw [List.getElem?_eq_none hge, List.getElem_append_right hge]
    simp [Nat.add_sub_cancel' hge]

end Element

end Whuctf.Client
