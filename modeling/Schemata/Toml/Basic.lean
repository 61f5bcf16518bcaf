import Schemata.Number.Binary

/-!
# TOML Values

The values of a TOML document. A date or a time is kept as its text in normal
form, since nothing here computes with it.

The members of a table are a list without a repeated key.

## Main definitions

* `Toml`: A value.
-/

namespace Schemata

/-- A value of a TOML document. -/
inductive Toml where
  | boolean (value : Bool)
  | integer (value : Int)
  | float (value : Binary)
  | string (value : String)
  /-- A date, a time, or both. -/
  | moment (text : String)
  | array (items : List Toml)
  | table (members : List (String × Toml))
  deriving Repr

namespace Toml

instance : Inhabited Toml :=
  ⟨.table []⟩

end Toml

end Schemata
