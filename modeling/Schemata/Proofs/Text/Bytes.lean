import Mathlib.Data.List.Basic
import Schemata.Calendar.Instant

/-!
# Texts by Their Bytes

What can be said of a text by a reader that looks at its bytes.

Such a reader counts each byte as the character with its code. For ASCII that
makes no difference (`byteForm_of_ascii`), and no two texts have the same bytes
(`byteForm_injective`). So a text can be known by what was read from it, and if
nothing but ASCII was read, that is the text itself (`byteForm_eq_iff`).

## Main definitions

* `byteForm`: The bytes of some characters.

## Theorems

* `byteForm_of_ascii`: A character of ASCII is its byte.
* `byteForm_injective`: Different texts have different bytes.
* `byteForm_eq_iff`: Bytes of ASCII are those of one text only.
-/

namespace Schemata

/-- The bytes of some characters, as they are read. -/
def byteForm (cs : List Char) : List Char :=
  Instant.byteChars (cs.flatMap String.utf8EncodeChar)

theorem byteForm_append (as bs : List Char) : byteForm (as ++ bs) = byteForm as ++ byteForm bs := by
  rw [byteForm, List.flatMap_append, Instant.byteChars, List.map_append]
  rfl

/-- A character of ASCII is its byte. -/
theorem byteForm_cons (c : Char) (cs : List Char) (h : c.toNat < 128) :
    byteForm (c :: cs) = c :: byteForm cs := by
  have hsize : c.utf8Size = 1 := by
    rw [Char.utf8Size_eq_one_iff, UInt32.le_iff_toNat_le]
    exact Nat.le_of_lt_succ h
  have hcode : c.val.toNat % 2 ^ 8 = c.toNat := Nat.mod_eq_of_lt (Nat.lt_trans h (by decide))
  rw [byteForm, List.flatMap_cons, String.utf8EncodeChar_eq_singleton hsize, List.singleton_append,
    Instant.byteChars, List.map_cons, UInt32.toNat_toUInt8, hcode, Char.ofNat_toNat]
  rfl

theorem byteForm_of_ascii (cs : List Char) (h : ∀ c ∈ cs, c.toNat < 128) : byteForm cs = cs := by
  induction cs with
  | nil => rfl
  | cons c cs ih =>
      rw [List.forall_mem_cons] at h
      rw [byteForm_cons c cs h.1, ih h.2]

/-- The character with the code of a byte has that code. -/
theorem toNat_ofNat_byte (byte : UInt8) : (Char.ofNat byte.toNat).toNat = byte.toNat := by
  rw [Char.ofNat, dif_pos (Or.inl (Nat.lt_trans byte.toNat_lt (by decide)))]
  rfl

theorem byteChars_injective : Function.Injective Instant.byteChars := by
  refine List.map_injective_iff.mpr fun a b h => ?_
  rw [← UInt8.toNat_inj, ← toNat_ofNat_byte a, h, toNat_ofNat_byte b]

/-- Different texts have different bytes. -/
theorem byteForm_injective : Function.Injective byteForm := by
  intro as bs h
  have hbytes := congrArg List.toByteArray (byteChars_injective h)
  have htext : String.ofList as = String.ofList bs := by
    rw [← String.toByteArray_inj, String.toByteArray_ofList, String.toByteArray_ofList]
    exact hbytes
  rw [← String.toList_ofList (l := as), htext, String.toList_ofList]

/-- Bytes of ASCII are those of one text only, which is their characters. -/
theorem byteForm_eq_iff (cs ascii : List Char) (h : ∀ c ∈ ascii, c.toNat < 128) :
    byteForm cs = ascii ↔ cs = ascii := by
  have hself := byteForm_of_ascii ascii h
  constructor
  · intro hcs
    exact byteForm_injective (hcs.trans hself.symm)
  · rintro rfl
    exact hself

end Schemata
