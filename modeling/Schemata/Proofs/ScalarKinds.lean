import Schemata.Proofs.DecimalTypes
import Schemata.Scalar

/-!
# Texts of Scalar Types

When a scalar type has a value for a text.

Such a type reads the text in its own way, and whatever is wrong with the text
is a matter of its syntax. So a text is either read or refused for its syntax,
and what a type accepts is known from its reader alone.

## Main definitions

* `ScalarKind.Accepts`: The type has a value for a text.

## Theorems

* `ScalarKind.parse_eq_ok_iff`: The value of a text is what is read.
* `ScalarKind.accepts_iff`: A text is accepted if it is read.
* `ScalarKind.parse_isSyntax_iff`: Every other text is refused for its syntax.
-/

namespace Schemata

/-- The type has a value for the text. -/
def ScalarKind.Accepts (kind : ScalarKind) (text : String) : Prop :=
  ∃ value, kind.parse (some text) = .ok (some value)

namespace ScalarKind

variable (kind : ScalarKind) (text : String)

theorem parse_eq_ok_iff (value : Value) :
    kind.parse (some text) = .ok (some value) ↔ kind.read text = .ok value := by
  simp only [parse, map_mapError_eq_ok_iff, Option.some.injEq, exists_eq_right']

theorem parse_of_read (value : Value) (h : kind.read text = .ok value) :
    kind.parse (some text) = .ok (some value) :=
  (kind.parse_eq_ok_iff text value).mpr h

theorem accepts_iff : kind.Accepts text ↔ ∃ value, kind.read text = .ok value :=
  exists_congr (kind.parse_eq_ok_iff text)

/-- A text that is not accepted is refused for its syntax. -/
theorem parse_isSyntax_iff :
    Fails SchemaError.isSyntax (kind.parse (some text)) ↔ ¬ kind.Accepts text := by
  rw [accepts_iff, parse]
  cases kind.read text with
  | error fault => exact iff_of_true ⟨_, rfl, rfl⟩ fun ⟨_, h⟩ => nomatch h
  | ok value => exact iff_of_false (fun ⟨_, h, _⟩ => nomatch h) (not_not.mpr ⟨value, rfl⟩)

end ScalarKind

end Schemata
