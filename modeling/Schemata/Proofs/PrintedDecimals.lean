import Schemata.Proofs.DecimalTypes
import Schemata.Proofs.Number.Printing

/-!
# Printed Values of Decimal Types

What is printed for a value of a decimal type is read as that value again.

Nothing that was counted or computed for the text that the value comes from has to
be looked at for the printed one: a type takes a literal for the number that it
says (`DecimalType.read_exact_eq_ok_iff`, `DecimalType.read_native_eq_ok_iff`), and
what is printed says the number of the value. Zero is printed without places and
gets those of the type back.

## Theorems

* `DecimalType.parse_printed`: Printed values are read back.
-/

namespace Schemata

namespace DecimalType

variable (type : DecimalType)

/-- Values are exact decimals, or there is a width that is native. -/
theorem representation_cases : type.representation = .arbitrary ∨
    ∃ bits, type.bits = some bits ∧ bits ≤ 64 := by
  rw [representation]
  rcases type.bits with _ | bits
  · exact Or.inl rfl
  · by_cases hle : bits ≤ 64
    · exact Or.inr ⟨bits, rfl, hle⟩
    · refine Or.inl ?_
      simp only
      rw [if_neg (by omega), if_neg hle]

theorem read_printed_native (bits : Nat) (hb : type.bits = some bits) (hle : bits ≤ 64)
    (text : String) (value : Value) (h : type.read text = .ok value) :
    type.read value.text = .ok value := by
  rcases (type.read_native_eq_ok_iff bits hb hle text value).mp h with ⟨n, _, hh, rfl⟩
  have htext : (nativeValue bits n).text = toString n := by
    rw [nativeValue]
    split
    · rfl
    · rfl
  rw [type.read_native_eq_ok_iff bits hb hle, htext]
  exact ⟨n, Integer.denotes_toString n, hh, rfl⟩

theorem read_printed_exact (hp : type.precision < 2 ^ 32)
    (harb : type.representation = .arbitrary) (text : String) (value : Value)
    (h : type.read text = .ok value) : type.read value.text = .ok value := by
  rcases (type.read_exact_eq_ok_iff harb text value).mp h with ⟨x, d, _, hh, rfl, rfl, hs⟩
  have hle := type.scale_le
  have hleast : Decimal.scaleRange.least ≤ 0 := by decide
  have hgreatest : 2 ^ 32 ≤ Decimal.scaleRange.greatest := by decide
  rw [type.read_exact_eq_ok_iff harb]
  refine ⟨d.value, d, d.denotes_text ?_ ?_, hh, rfl, rfl, hs⟩
  · omega
  · rw [Integer.mem_range_iff]
    omega

/-- What is printed for a value that a text was read as is read as the same value: the same native
    integer, or the decimal of the same mantissa and scale, whichever notation it is printed in.
    The precision is a number of 32 bits, so a printed exponent is one that can be read. -/
theorem parse_printed (hp : type.precision < 2 ^ 32) (text : String) (value : Value)
    (h : type.parse (some text) = .ok (some value)) :
    type.parse (some value.text) = .ok (some value) := by
  rw [parse_eq_ok_iff] at h ⊢
  rcases h with ⟨_, hread, hvalue⟩
  rw [← Option.some.inj hvalue] at hread
  refine ⟨value, ?_, rfl⟩
  rcases type.representation_cases with harb | ⟨bits, hb, hle⟩
  · exact type.read_printed_exact hp harb text value hread
  · exact type.read_printed_native bits hb hle text value hread

/-- A decimal with many zeros behind the point is printed with an exponent, one with few of them is
    not, zero is printed without its places, and an integer of 64 bits without its leading
    zeros. -/
theorem parse_printed_notations : ∃ places, fraction 12 8 = .ok places ∧
    places.precision < 2 ^ 32 ∧ long.precision < 2 ^ 32 ∧
    places.parse (some "-.00000012") = .ok (some (.decimal ⟨-12, 8⟩)) ∧
    (Value.decimal ⟨-12, 8⟩).text = "-1.2E-7" ∧
    places.parse (some "-1.2E-7") = .ok (some (.decimal ⟨-12, 8⟩)) ∧
    places.parse (some "1_2e-5") = .ok (some (.decimal ⟨12000, 8⟩)) ∧
    (Value.decimal ⟨12000, 8⟩).text = "0.00012000" ∧
    places.parse (some "0.00012000") = .ok (some (.decimal ⟨12000, 8⟩)) ∧
    places.parse (some "0.0") = .ok (some (.decimal ⟨0, 8⟩)) ∧
    (Value.decimal ⟨0, 8⟩).text = "0" ∧
    places.parse (some "0") = .ok (some (.decimal ⟨0, 8⟩)) ∧
    long.parse (some "+0042") = .ok (some (.long 42)) ∧
    (Value.long 42).text = "42" ∧
    long.parse (some "42") = .ok (some (.long 42)) := by
  let places : DecimalType := ⟨12, 8, none, by decide, by decide, rfl, by decide⟩
  have hparse (type : DecimalType) (text : String) (value : Value)
      (h : type.read text = .ok value) : type.parse (some text) = .ok (some value) :=
    (type.parse_eq_ok_iff text _).mpr ⟨_, h, rfl⟩
  -- Texts and prints are evaluated. That the prints
  -- are read back follows from the general statement.
  have hsmall := hparse places "-.00000012" (.decimal ⟨-12, 8⟩) (by decide +kernel)
  have hplain := hparse places "1_2e-5" (.decimal ⟨12000, 8⟩) (by decide +kernel)
  have hzero := hparse places "0.0" (.decimal ⟨0, 8⟩) (by decide +kernel)
  have hlong := hparse long "+0042" (.long 42) (by decide +kernel)
  have htiny : (Value.decimal ⟨-12, 8⟩).text = "-1.2E-7" := by decide +kernel
  have hpadded : (Value.decimal ⟨12000, 8⟩).text = "0.00012000" := by decide +kernel
  have hnone : (Value.decimal ⟨0, 8⟩).text = "0" := by decide +kernel
  have hnative : (Value.long 42).text = "42" := by decide +kernel
  exact ⟨places, rfl, by decide, by decide,
    hsmall, htiny, htiny ▸ parse_printed places (by decide) _ _ hsmall,
    hplain, hpadded, hpadded ▸ parse_printed places (by decide) _ _ hplain,
    hzero, hnone, hnone ▸ parse_printed places (by decide) _ _ hzero,
    hlong, hnative, hnative ▸ parse_printed long (by decide) _ _ hlong⟩

end DecimalType

end Schemata
