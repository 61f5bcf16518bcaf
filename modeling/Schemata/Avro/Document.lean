import Schemata.Avro.Export
import Schemata.Avro.Validation

/-!
# Documents

From a text to types and from types to a schema, with the rules of the schema
language checked in between.

## Main definitions

* `readDocument`: The document of a text.
* `validate`: The schema of a document.
* `fromText`: The types of a text.
* `toAvro`: The schema of a type.
-/

namespace Schemata

/-- The document of a text. -/
def readDocument (text : String) : Except SchemaError Json :=
  (Json.read text).mapError .json

/-- The schema of a document, by the rules of the schema language. -/
def validate (document : Json) : Except SchemaError Avro.Schema :=
  (Avro.Schema.ofJson document).mapError .avro

/-- The types of a text whose document breaks no rule of the schema language. -/
def fromText (token : Nat) (text : String) : Except SchemaError (Registry × Ty) := do
  let document ← readDocument text
  let _ ← validate document
  fromSchema token document

/-- The schema that a type is exported as. -/
def toAvro (r : Registry) (type : Ty) : Except SchemaError Avro.Schema := do
  validate (← toSchema r type)

end Schemata
