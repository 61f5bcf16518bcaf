import Schemata.Bytes.Hex
import Schemata.Proofs.Registry.Lookup
import Schemata.Proofs.Text.Bytes

/-!
# Pairs of Digits

Which texts are hexadecimal, and the bytes that they stand for.

Bytes are written in small letters and read in letters of either case. So a text
is one of some bytes if it becomes what is written for them once its letters are
small (`Hex.decode_eq_ok_iff`). A text of bytes outside of ASCII becomes nothing
of the kind, as such a byte has no small letter and is no digit.

## Theorems

* `Hex.digitValue?_eq_some_iff`: A digit is known by its small letter.
* `Hex.decode_eq_ok_iff`: What is read becomes what is written.
* `Hex.exists_encode_iff`: Texts of an even number of digits are those of some
  bytes.
-/

namespace Schemata

namespace Hex

/-! ### Digits -/

theorem digit_ascii (n : Nat) (h : n < 16) : (digit n).toNat < 128 := by
  have hall : ∀ n < 16, (digit n).toNat < 128 := by decide
  exact hall n h

/-- A digit is known by its small letter. -/
theorem digitValue?_eq_some_iff (byte : UInt8) (n : Nat) : digitValue? byte = some n ↔
    n < 16 ∧ (Char.ofNat byte.toNat).toLower = digit n := by
  have hvalue : ∀ code < 256, ∀ n ∈ digitValue? (UInt8.ofNat code),
      n < 16 ∧ (Char.ofNat (UInt8.ofNat code).toNat).toLower = digit n := by decide +kernel
  have hdigit : ∀ code < 256, ∀ n < 16, (Char.ofNat (UInt8.ofNat code).toNat).toLower = digit n →
      digitValue? (UInt8.ofNat code) = some n := by decide +kernel
  have hlt := byte.toNat_lt
  rw [← UInt8.ofNat_toNat (x := byte)]
  exact ⟨hvalue byte.toNat hlt n, fun h => hdigit byte.toNat hlt n h.1 h.2⟩

/-- Two digits are the halves of one byte. -/
theorem ofNat_eq_iff (high low : Nat) (hh : high < 16) (hl : low < 16) (byte : UInt8) :
    UInt8.ofNat (16 * high + low) = byte ↔ high = byte.toNat / 16 ∧ low = byte.toNat % 16 := by
  have hlt := byte.toNat_lt
  rw [← UInt8.toNat_inj, UInt8.toNat_ofNat']
  omega

/-! ### Pairs -/

theorem encodeChars_cons (byte : UInt8) (bytes : List UInt8) : encodeChars (byte :: bytes) =
    digit (byte.toNat / 16) :: digit (byte.toNat % 16) :: encodeChars bytes :=
  rfl

theorem ascii_encodeChars (bytes : List UInt8) : ∀ c ∈ encodeChars bytes, c.toNat < 128 := by
  intro c hc
  rcases List.mem_flatMap.mp hc with ⟨byte, _, hbyte⟩
  have hlt := byte.toNat_lt
  rw [List.mem_cons, List.mem_singleton] at hbyte
  rcases hbyte with rfl | rfl
  · exact digit_ascii _ (by omega)
  · exact digit_ascii _ (by omega)

theorem length_encodeChars (bytes : List UInt8) :
    (encodeChars bytes).length = 2 * bytes.length := by
  induction bytes with
  | nil => rfl
  | cons byte bytes ih =>
      rw [encodeChars_cons, List.length_cons, List.length_cons, List.length_cons, ih]
      omega

/-- A pair is read if both of its digits are, and what is behind it. -/
theorem decodePairs_pair_eq_ok_iff (position : Nat) (high low : UInt8) (rest bytes : List UInt8) :
    decodePairs position (high :: low :: rest) = .ok bytes ↔
      ∃ h l tail, digitValue? high = some h ∧ digitValue? low = some l ∧
        decodePairs (position + 2) rest = .ok tail ∧ UInt8.ofNat (16 * h + l) :: tail = bytes := by
  rw [decodePairs]
  cases digitValue? high with
  | none => exact iff_of_false nofun fun ⟨_, _, _, hh, _⟩ => nomatch hh
  | some h =>
      cases digitValue? low with
      | none => exact iff_of_false nofun fun ⟨_, _, _, _, hl, _⟩ => nomatch hl
      | some l =>
          simp only [bind_eq_ok_iff, pure_eq_ok_iff, Option.some.injEq, exists_and_left,
            exists_eq_left']

/-- Pairs of digits are read as the bytes that are written so in small letters. -/
theorem decodePairs_eq_ok_iff : ∀ (position : Nat) (codes bytes : List UInt8),
    decodePairs position codes = .ok bytes ↔
      (Instant.byteChars codes).map Char.toLower = encodeChars bytes
  | _, [], bytes => by
      cases bytes with
      | nil => exact iff_of_true rfl rfl
      | cons byte bytes => exact iff_of_false nofun nofun
  | _, [_], bytes => by
      cases bytes with
      | nil => exact iff_of_false nofun nofun
      | cons byte bytes => exact iff_of_false nofun fun h => nomatch (List.cons.inj h).2
  | position, high :: low :: rest, bytes => by
      simp only [decodePairs_pair_eq_ok_iff, digitValue?_eq_some_iff,
        decodePairs_eq_ok_iff (position + 2) rest]
      constructor
      · rintro ⟨h, l, tail, ⟨hh, hhigh⟩, ⟨hl, hlow⟩, htail, rfl⟩
        rcases (ofNat_eq_iff h l hh hl _).mp rfl with ⟨hhalf, hhalf'⟩
        rw [encodeChars_cons, ← hhalf, ← hhalf', ← htail, ← hhigh, ← hlow]
        rfl
      · intro heq
        cases bytes with
        | nil => exact nomatch heq
        | cons byte tail =>
            have hlt := byte.toNat_lt
            -- A byte is made of its two halves.
            have hbyte := (ofNat_eq_iff _ _ (by omega) (by omega) byte).mpr ⟨rfl, rfl⟩
            simp only [Instant.byteChars, List.map_cons, encodeChars_cons, List.cons.injEq] at heq
            exact ⟨_, _, tail, ⟨by omega, heq.1⟩, ⟨by omega, heq.2.1⟩, heq.2.2, by rw [hbyte]⟩

/-! ### Texts -/

/-- Only a character of ASCII has a small letter in ASCII. -/
theorem ascii_of_toLower (c : Char) (h : c.toLower.toNat < 128) : c.toNat < 128 := by
  by_contra hlarge
  have hself : c.toLower = c := by
    refine dif_neg ?_
    rw [ge_iff_le, UInt32.le_iff_toNat_le, UInt32.le_iff_toNat_le]
    rintro ⟨_, hle⟩
    exact hlarge (Nat.lt_of_le_of_lt hle (by decide))
  rw [hself] at h
  exact hlarge h

/-- The bytes of a text become what is written for others in small letters exactly if its
    characters do. -/
theorem toLower_byteForm_iff (cs : List Char) (bytes : List UInt8) :
    (byteForm cs).map Char.toLower = encodeChars bytes ↔
      cs.map Char.toLower = encodeChars bytes := by
  have hascii (ds : List Char) (h : ds.map Char.toLower = encodeChars bytes) :
      ∀ c ∈ ds, c.toNat < 128 := fun c hc =>
    ascii_of_toLower c (ascii_encodeChars bytes _ (h ▸ List.mem_map_of_mem hc))
  constructor
  · intro h
    rw [(byteForm_eq_iff cs _ (hascii _ h)).mp rfl]
    exact h
  · intro h
    rw [byteForm_of_ascii cs (hascii cs h)]
    exact h

theorem toLower_eq_encode_iff (text : String) (bytes : List UInt8) :
    text.toLower = encode bytes ↔ text.toList.map Char.toLower = encodeChars bytes := by
  have hlower : text.toLower = text.map Char.toLower := rfl
  rw [← String.toList_inj, hlower, String.toList_map, encode, String.toList_ofList]

/-- A text is read as the bytes for which it is written in small letters. -/
theorem decode_eq_ok_iff (text : String) (bytes : List UInt8) :
    decode text = .ok bytes ↔ text.toLower = encode bytes := by
  rw [toLower_eq_encode_iff, ← toLower_byteForm_iff, decode]
  by_cases hodd : (Text.utf8 text).length % 2 = 1
  · -- Two digits are written for each byte, so that the number of bytes is even.
    rw [if_pos hodd]
    refine iff_of_false nofun fun h => ?_
    have hlength := congrArg List.length h
    rw [List.length_map, length_encodeChars, byteForm, Instant.byteChars, List.length_map]
      at hlength
    change (Text.utf8 text).length = _ at hlength
    omega
  · rw [if_neg hodd, decodePairs_eq_ok_iff]
    rfl

/-- A character is a digit if its small letter is one of those that are written. -/
theorem isHexDigit_iff (c : Char) :
    Text.isHexDigit c = true ↔ ∃ n < 16, c.toLower = digit n := by
  have hascii : ∀ code < 128, Text.isHexDigit (Char.ofNat code) = true ↔
      ∃ n < 16, (Char.ofNat code).toLower = digit n := by decide +kernel
  by_cases hc : c.toNat < 128
  · have hiff := hascii c.toNat hc
    rwa [Char.ofNat_toNat] at hiff
  · refine iff_of_false ?_ ?_
    · -- Every digit lies in front of the end of ASCII.
      have hout (d : Char) (hd : d.toNat < 128) : ¬ c ≤ d := fun hle =>
        hc (Nat.lt_of_le_of_lt (UInt32.le_iff_toNat_le.mp hle) hd)
      rw [Text.isHexDigit, Text.hexDigit?, if_neg fun h => hout '9' (by decide) h.2,
        if_neg fun h => hout 'f' (by decide) h.2, if_neg fun h => hout 'F' (by decide) h.2]
      exact Bool.false_ne_true
    · rintro ⟨n, hn, hlower⟩
      exact hc (ascii_of_toLower c (hlower ▸ digit_ascii n hn))

/-- Characters are those of some bytes if their number is even and all of them are digits. -/
theorem exists_encodeChars_iff : ∀ cs : List Char,
    (∃ bytes, cs.map Char.toLower = encodeChars bytes) ↔
      cs.length % 2 = 0 ∧ ∀ c ∈ cs, Text.isHexDigit c = true
  | [] => iff_of_true ⟨[], rfl⟩ ⟨rfl, List.forall_mem_nil _⟩
  | [c] => by
      refine iff_of_false ?_ fun h => nomatch h.1
      rintro ⟨bytes, h⟩
      have hlength := congrArg List.length h
      rw [length_encodeChars, List.length_map, List.length_singleton] at hlength
      omega
  | high :: low :: rest => by
      have ih := exists_encodeChars_iff rest
      have heven : (high :: low :: rest).length % 2 = rest.length % 2 := by
        rw [List.length_cons, List.length_cons]
        omega
      rw [heven, List.forall_mem_cons, List.forall_mem_cons, isHexDigit_iff, isHexDigit_iff]
      constructor
      · rintro ⟨bytes, h⟩
        cases bytes with
        | nil => exact nomatch h
        | cons byte tail =>
            have hlt := byte.toNat_lt
            simp only [List.map_cons, encodeChars_cons, List.cons.injEq] at h
            rcases ih.mp ⟨tail, h.2.2⟩ with ⟨hrest, hdigits⟩
            exact ⟨hrest, ⟨_, by omega, h.1⟩, ⟨_, by omega, h.2.1⟩, hdigits⟩
      · -- Two digits are the halves of one byte.
        rintro ⟨hrest, ⟨h, hh, hhigh⟩, ⟨l, hl, hlow⟩, hdigits⟩
        rcases ih.mpr ⟨hrest, hdigits⟩ with ⟨tail, htail⟩
        rcases (ofNat_eq_iff h l hh hl _).mp rfl with ⟨hhalf, hhalf'⟩
        refine ⟨UInt8.ofNat (16 * h + l) :: tail, ?_⟩
        rw [encodeChars_cons, ← hhalf, ← hhalf', ← htail, ← hhigh, ← hlow]
        rfl

/-- A text is one of bytes if it has an even number of characters and all of them are digits. -/
theorem exists_encode_iff (text : String) : (∃ bytes, text.toLower = encode bytes) ↔
    text.length % 2 = 0 ∧ ∀ c ∈ text.toList, Text.isHexDigit c = true := by
  simp only [toLower_eq_encode_iff, exists_encodeChars_iff, String.length_toList]

end Hex

end Schemata
