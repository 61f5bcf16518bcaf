/-!
# Faults of Settings

Why a source gives no settings, by cause.

## Main definitions

* `Settings.Fault`: A cause, and its `message`.
-/

namespace Schemata

namespace Settings

/-- Why a source gives no settings. -/
inductive Fault where
  /-- A required file does not exist. -/
  | missing (file : String)
  /-- A file is of no known format. -/
  | unknownFormat (file : String)
  /-- A file is no document. -/
  | malformed (file : String)
  /-- A key of a file is neither a text nor an integer. -/
  | unusableKey (file : String)
  /-- An index leads out of a list. -/
  | outOfReach (index : Int)
  /-- A value does not say what a setting is. -/
  | wrongType (setting : String)
  /-- A section is no table, or a word is none of those that can be chosen. -/
  | wrongShape (setting : String)
  deriving DecidableEq, Repr

namespace Fault

/-- The wording of a fault. -/
def message : Fault → String
  | .missing file => "configuration file \"" ++ file ++ "\" not found"
  | .unknownFormat file =>
    "configuration file \"" ++ file ++ "\" is not of a registered file format"
  | .malformed file => "malformed document in " ++ file
  | .unusableKey file => "unusable key in " ++ file
  | .outOfReach index => "no place with index " ++ toString index
  | .wrongType setting => "invalid type for key \x60" ++ setting ++ "\x60"
  | .wrongShape setting => "invalid value for key \x60" ++ setting ++ "\x60"

/-- The fault is none that is reported, but one that ends the program at once. -/
def isFatal : Fault → Bool
  | .unusableKey _ | .outOfReach _ => true
  | _ => false

end Fault

end Settings

end Schemata
