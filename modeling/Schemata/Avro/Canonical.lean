import Schemata.Avro.Schema
import Schemata.Error

/-!
# Canonical Form

The text by which two schemas are compared: no blanks, no documentation, no
aliases, no defaults, full names, and the members of every object in one fixed
order. Names are written as they are, since they need no escaping.

Numbers are sizes, precisions and scales. The form has room for 63 bits of
them, so a schema with a larger one has no canonical form.

## Main definitions

* `Schema.canonical`: The text of a schema, whatever its numbers are.
* `Schema.canonicalForm`: The canonical form, if the schema has one.
-/

namespace Schemata

namespace Avro

namespace Canonical

/-- A text between quotation marks. -/
def quoted (text : String) : String :=
  "\"" ++ text ++ "\""

/-- A member of an object. -/
def entry (key value : String) : String :=
  quoted key ++ ":" ++ value

/-- An object of some members. -/
def braces (entries : List String) : String :=
  "\x7b" ++ String.intercalate "," entries ++ "\x7d"

/-- A list of some items. -/
def brackets (items : List String) : String :=
  "[" ++ String.intercalate "," items ++ "]"

end Canonical

open Canonical

namespace Schema

mutual

/-- The text of a schema. -/
def canonical : Schema → String
  | .null => quoted "null"
  | .boolean => quoted "boolean"
  | .int => quoted "int"
  | .long => quoted "long"
  | .float => quoted "float"
  | .double => quoted "double"
  | .bytes => quoted "bytes"
  | .string => quoted "string"
  | .array items => braces [entry "type" (quoted "array"), entry "items" (canonical items)]
  | .map values => braces [entry "type" (quoted "map"), entry "values" (canonical values)]
  | .union branches => brackets (canonicalBranches branches)
  | .record name fields =>
    braces [entry "name" (quoted name), entry "type" (quoted "record"),
      entry "fields" (brackets (canonicalFields fields))]
  | .enumeration name symbols _ =>
    braces [entry "name" (quoted name), entry "type" (quoted "enum"),
      entry "symbols" (brackets (symbols.map quoted))]
  | .fixed name size =>
    braces [entry "name" (quoted name), entry "type" (quoted "fixed"),
      entry "size" (toString size)]
  | .decimal precision scale base =>
    braces [entry "type" (canonical base), entry "logicalType" (quoted "decimal"),
      entry "precision" (toString precision), entry "scale" (toString scale)]
  | .duration =>
    braces [entry "type" (braces [entry "name" (quoted "duration"),
        entry "type" (quoted "fixed"), entry "size" "12"]),
      entry "logicalType" (quoted "duration")]
  | .logical type =>
    braces [entry "type" (quoted type.baseName), entry "logicalType" (quoted type.name)]
  | .reference name => quoted name

/-- The texts of the branches of a union. -/
def canonicalBranches : List Schema → List String
  | [] => []
  | branch :: rest => canonical branch :: canonicalBranches rest

/-- The texts of the fields of a record. -/
def canonicalFields : List (String × Schema × Option Json) → List String
  | [] => []
  | (name, schema, _) :: rest =>
    braces [entry "name" (quoted name), entry "type" (canonical schema)] :: canonicalFields rest

end

/-- The first number that canonical forms have no room for. -/
def numberLimit : Nat :=
  0x8000000000000000

mutual

/-- The sizes, precisions and scales of a schema, in order. -/
def numbers : Schema → List Nat
  | .array items => numbers items
  | .map values => numbers values
  | .union branches => branchNumbers branches
  | .record _ fields => fieldNumbers fields
  | .fixed _ size => [size]
  | .decimal precision scale base => precision :: scale :: numbers base
  | _ => []

/-- The numbers of the branches of a union. -/
def branchNumbers : List Schema → List Nat
  | [] => []
  | branch :: rest => numbers branch ++ branchNumbers rest

/-- The numbers of the fields of a record. -/
def fieldNumbers : List (String × Schema × Option Json) → List Nat
  | [] => []
  | (_, schema, _) :: rest => numbers schema ++ fieldNumbers rest

end

/-- The canonical form, if the schema has one. -/
def canonicalForm (schema : Schema) : Except AvroFault String :=
  match schema.numbers.find? (numberLimit ≤ ·) with
  | some number => .error (.tooLarge number)
  | none => .ok schema.canonical

end Schema

end Avro

end Schemata
