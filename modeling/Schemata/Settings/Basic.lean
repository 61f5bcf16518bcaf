import Schemata.Json.Printer
import Schemata.Number.Shortest
import Schemata.Settings.Layer
import Schemata.Toml.Text

/-!
# Settings

What can be set, in four sections, and how a value is understood. A setting
takes every value that says plainly what is meant: a switch also takes numbers
and words, a number also takes words and digits, and a text takes anything
that has one spelling. What is not set has its default.

A section may also be a list of its settings in order.

## Main definitions

* `Settings`: The settings.
* `Settings.ofTable`: The settings of a table.
* `Settings.saved?`: The settings as a document.
-/

namespace Schemata

/-- What can be set. -/
structure Settings where
  /-- Check documents by the rules of the schema language before importing them. -/
  importValidate : Bool
  outputFormat : Json.OutputFormat
  /-- Check documents by the rules of the schema language when exporting them. -/
  exportValidate : Bool
  /-- The blanks of one level of an outline. -/
  indent : Nat
  /-- The extension of the files that a check looks at. -/
  extension : String
  deriving DecidableEq, Repr

namespace Settings

/-- The settings when nothing is set. -/
def default : Settings :=
  ⟨true, .pretty, true, 2, "avsc"⟩

/-! ### Values -/

/-- The meaning of a word that is a switch. -/
def switch? (word : String) : Option Bool :=
  match Setting.lowered word with
  | "true" | "on" | "yes" => some true
  | "false" | "off" | "no" => some false
  | _ => none

/-- The number is not zero. -/
def isNonzero : Binary → Bool
  | .finite number => number.mantissa ≠ 0
  | _ => true

/-- The switch that a value says. -/
def asBool? : Setting → Option Bool
  | .boolean value => some value
  | .integer value => some (value ≠ 0)
  | .float value => some (isNonzero value)
  | .text "1" => some true
  | .text "0" => some false
  | .text word => switch? word
  | _ => none

/-- The greatest number that can be set. -/
def greatest : Nat :=
  0xffffffffffffffff

/-- The natural number nearest to a floating-point number within reach, a half going up. -/
def roundToNat : Binary → Nat
  | .finite number =>
    if number.negative then 0
    else if 0 ≤ number.exponent then
      min (number.mantissa * Nat.pow 2 number.exponent.toNat) greatest
    else
      let half := Nat.pow 2 ((-number.exponent).toNat - 1)
      min ((number.mantissa + half) / (2 * half)) greatest
  | .infinite negative => if negative then 0 else greatest
  | .nan => 0

/-- The number of some digits, perhaps behind a plus sign. -/
def digitsValue? (text : String) : Option Nat :=
  let digits :=
    match text.toList with
    | '+' :: digits => digits
    | digits => digits
  if digits = [] then none
  else
    match (Integer.Range.mk 0 greatest).readUp 0 digits with
    | .ok n => some n.toNat
    | .error _ => none

/-- The natural number that a value says. -/
def asNat? : Setting → Option Nat
  | .integer (.ofNat n) => some n
  | .boolean value => some value.toNat
  | .float value => some (roundToNat value)
  | .text word => (switch? word).elim (digitsValue? word) (some ·.toNat)
  | _ => none

/-- The text that a value says. -/
def asText? : Setting → Option String
  | .text value => some value
  | .boolean value => some (if value then "true" else "false")
  | .integer value => some (toString value)
  | .float value => some (Format.double.text .plain value)
  | _ => none

/-- The format of a name, in any case. -/
def formatNamed? (name : String) : Option Json.OutputFormat :=
  [Json.OutputFormat.pretty, .compact].find? (·.name = Setting.lowered name)

/-- The format that a value says: its name, or a table with its name as the only key. -/
def asFormat? : Setting → Option Json.OutputFormat
  | .text name => formatNamed? name
  | .table [(name, _)] => formatNamed? name
  | _ => none

/-! ### Sections -/

/-- The values of a section, by the names of its settings. -/
def readSection (table : Setting.Members) (title : String) (names : List String) :
    Except Fault Setting.Members :=
  match table.lookup title with
  | none => .ok []
  | some (.table members) => .ok members
  | some (.list items) => .ok (names.zip items)
  | some _ => .error (.wrongShape title)

/-- A setting of a section. -/
def setting (values : Setting.Members) (name : String) (fault : String → Fault)
    (read : Setting → Option α) (fallback : α) : Except Fault α :=
  match values.lookup name with
  | none => .ok fallback
  | some value => (read value).elim (.error (fault name)) .ok

/-- The settings of a table. -/
def ofTable (table : Setting.Members) : Except Fault Settings := do
  let values ← readSection table "import" ["validate"]
  let importValidate ← setting values "validate" .wrongType asBool? default.importValidate
  let values ← readSection table "export" ["output_format", "validate"]
  let outputFormat ← setting values "output_format" .wrongShape asFormat? default.outputFormat
  let exportValidate ← setting values "validate" .wrongType asBool? default.exportValidate
  let values ← readSection table "render" ["indent"]
  let indent ← setting values "indent" .wrongType asNat? default.indent
  let values ← readSection table "check" ["extension"]
  let extension ← setting values "extension" .wrongType asText? default.extension
  return ⟨importValidate, outputFormat, exportValidate, indent, extension⟩

/-! ### Saving -/

/-- The text of a switch. -/
def switchText (value : Bool) : String :=
  if value then "true" else "false"

/-- A section as lines. -/
def sectionText (title : String) (members : List (String × String)) : String :=
  "[" ++ title ++ "]\n" ++
    String.join (members.map fun (key, value) => key ++ " = " ++ value ++ "\n")

/-- The greatest integer that a document can write. -/
def greatestWritten : Nat :=
  0x7fffffffffffffff

/-- The settings as a document. Numbers in it have 64 bits with their sign, so a larger
    indentation cannot be saved. -/
def saved? (settings : Settings) : Option String :=
  if greatestWritten < settings.indent then none
  else
    some <| String.intercalate "\n"
      [sectionText "import" [("validate", switchText settings.importValidate)],
        sectionText "export" [("output_format", Toml.quoted settings.outputFormat.name),
          ("validate", switchText settings.exportValidate)],
        sectionText "render" [("indent", toString settings.indent)],
        sectionText "check" [("extension", Toml.quoted settings.extension)]]

end Settings

end Schemata
