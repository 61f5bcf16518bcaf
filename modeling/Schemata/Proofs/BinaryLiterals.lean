import Schemata.Proofs.Bytes.Base64
import Schemata.Proofs.Bytes.Hex
import Schemata.Proofs.ScalarKinds

/-!
# Literals of Bytes

Which texts are values of the types of bytes, and of which bytes.

Each of the two types is compared with the way in which bytes are written, which
knows nothing of its reader. Hexadecimal is read in letters of either case, so
many texts are read as the same bytes, and they differ in the case of their
letters only. Base64 has one text for all bytes, and no other text is read: not
with padding missing or in excess, not with bits left over, not with blanks, and
not with other symbols.

## Theorems

* `binary_literals`: The texts of both types, and their bytes.
-/

namespace Schemata

theorem read_binaryHex_eq_ok_iff (text : String) (value : Value) :
    ScalarKind.binaryHex.read text = .ok value ↔
      ∃ bytes, text.toLower = Hex.encode bytes ∧ value = .bytes bytes := by
  rw [ScalarKind.read, map_mapError_eq_ok_iff]
  exact exists_congr fun bytes => and_congr_left fun _ => Hex.decode_eq_ok_iff text bytes

theorem read_binaryBase64_eq_ok_iff (text : String) (value : Value) :
    ScalarKind.binaryBase64.read text = .ok value ↔
      ∃ bytes, text = Base64.encode bytes ∧ value = .bytes bytes := by
  rw [ScalarKind.read, map_mapError_eq_ok_iff]
  exact exists_congr fun bytes => and_congr_left fun _ => Base64.decode_eq_ok_iff text bytes

/-- In hexadecimal a text is a value exactly if it is that of some bytes but for the case of its
    letters. These are the texts of an even number of digits, and the value is shown as the text
    in small letters. In base64 a text is a value exactly if it is the encoding of some bytes, so
    that no two texts are the same value. Every other text is refused for its syntax. -/
theorem binary_literals :
    (∀ text value, ScalarKind.binaryHex.parse (some text) = .ok (some value) ↔
      ∃ bytes, text.toLower = Hex.encode bytes ∧ value = .bytes bytes) ∧
    (∀ text, ScalarKind.binaryHex.Accepts text ↔
      text.length % 2 = 0 ∧ ∀ c ∈ text.toList, Text.isHexDigit c = true) ∧
    (∀ text value, ScalarKind.binaryHex.parse (some text) = .ok (some value) →
      value.text = "0x" ++ text.toLower) ∧
    (∀ text, Fails SchemaError.isSyntax (ScalarKind.binaryHex.parse (some text)) ↔
      ¬ ScalarKind.binaryHex.Accepts text) ∧
    (∀ text value, ScalarKind.binaryBase64.parse (some text) = .ok (some value) ↔
      ∃ bytes, text = Base64.encode bytes ∧ value = .bytes bytes) ∧
    (∀ text text' value, ScalarKind.binaryBase64.parse (some text) = .ok (some value) →
      ScalarKind.binaryBase64.parse (some text') = .ok (some value) → text = text') ∧
    ∀ text, Fails SchemaError.isSyntax (ScalarKind.binaryBase64.parse (some text)) ↔
      ¬ ScalarKind.binaryBase64.Accepts text := by
  -- Each literal is first what its decoder accepts.
  have hhex : ∀ text value, ScalarKind.binaryHex.parse (some text) = .ok (some value) ↔
      ∃ bytes, text.toLower = Hex.encode bytes ∧ value = .bytes bytes := fun text value =>
    (ScalarKind.parse_eq_ok_iff _ text value).trans (read_binaryHex_eq_ok_iff text value)
  have hbase64 : ∀ text value, ScalarKind.binaryBase64.parse (some text) = .ok (some value) ↔
      ∃ bytes, text = Base64.encode bytes ∧ value = .bytes bytes := fun text value =>
    (ScalarKind.parse_eq_ok_iff _ text value).trans (read_binaryBase64_eq_ok_iff text value)
  refine ⟨hhex, fun text => ?_, fun text value h => ?_, ScalarKind.parse_isSyntax_iff _, hbase64,
    fun text text' value h h' => ?_, ScalarKind.parse_isSyntax_iff _⟩
  · rw [← Hex.exists_encode_iff]
    constructor
    · rintro ⟨value, h⟩
      rcases (hhex text value).mp h with ⟨bytes, hbytes, _⟩
      exact ⟨bytes, hbytes⟩
    · rintro ⟨bytes, hbytes⟩
      exact ⟨.bytes bytes, (hhex text _).mpr ⟨bytes, hbytes, rfl⟩⟩
  · rcases (hhex text value).mp h with ⟨bytes, hbytes, rfl⟩
    rw [hbytes]
    rfl
  · rcases (hbase64 text value).mp h with ⟨bytes, rfl, rfl⟩
    rcases (hbase64 text' _).mp h' with ⟨bytes', rfl, hvalue⟩
    rw [Value.bytes.inj hvalue]

/-- Two bytes in either form: in hexadecimal with letters of both cases, in base64 with the padding
    that they need, and neither without it nor with bits left over. -/
theorem binary_literals_dead :
    ScalarKind.binaryHex.parse (some "dEaD") = .ok (some (.bytes [0xde, 0xad])) ∧
      (Value.bytes [0xde, 0xad]).text = "0x" ++ "dEaD".toLower ∧
      Fails SchemaError.isSyntax (ScalarKind.binaryHex.parse (some "dEa")) ∧
      ScalarKind.binaryBase64.parse (some "3q0=") = .ok (some (.bytes [0xde, 0xad])) ∧
      Fails SchemaError.isSyntax (ScalarKind.binaryBase64.parse (some "3q0")) ∧
      ScalarKind.binaryBase64.parse (some "3q1=") ≠ .ok (some (.bytes [0xde, 0xad])) := by
  obtain ⟨hhex, hdigits, hshown, hrefused, hbase64, hone, _⟩ := binary_literals
  have hdead := (hhex "dEaD" _).mpr ⟨[0xde, 0xad], by decide +kernel, rfl⟩
  have hpadded := (hbase64 "3q0=" _).mpr ⟨[0xde, 0xad], by decide +kernel, rfl⟩
  refine ⟨hdead, hshown _ _ hdead, (hrefused _).mpr fun h => ?_, hpadded,
    ⟨_, rfl, rfl⟩, fun h => ?_⟩
  · exact absurd ((hdigits _).mp h).1 (by decide +kernel)
  · exact absurd (hone _ _ _ hpadded h) (by decide +kernel)

end Schemata
