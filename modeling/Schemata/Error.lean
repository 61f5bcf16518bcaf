import Schemata.Bytes.Hex
import Schemata.Bytes.Base64
import Schemata.Calendar.Reading
import Schemata.Json.Printer
import Schemata.Json.Reader
import Schemata.Number.Decimal

/-!
# Errors

Everything that an operation on types, values and schemas can refuse, by
cause. Each cause carries the names it is about; the wording is made from
them in one place, by `SchemaError.message`.

## Main definitions

* `ConstructionFault`, `ShapeFault`, `StateFault`: The causes of each kind.
* `SyntaxFault`, `LossFault`: Why a text is no value of a type.
* `SchemaError`: An error, and its `message`.
-/

namespace Schemata

/-- Why a type or a field cannot be made. -/
inductive ConstructionFault where
  | nameIsAlias (name : String)
  | noSymbols (enumeration : String)
  | repeatedSymbol (enumeration symbol : String)
  | unknownDefaultSymbol (enumeration symbol : String)
  | noBits
  | noFraction
  | noPrecision
  | scaleExceedsPrecision (scale precision : Nat)
  | nullDefault (field : String)
  | defaultNotList (field : String) (value : Json)
  deriving Repr

/-- The wording of a fault. -/
def ConstructionFault.message : ConstructionFault → String
  | .nameIsAlias name => "'" ++ name ++ "' is used both as name and as alias"
  | .noSymbols enumeration => "enum " ++ enumeration ++ " has no symbols"
  | .repeatedSymbol enumeration symbol =>
    "enum " ++ enumeration ++ " repeats symbol '" ++ symbol ++ "'"
  | .unknownDefaultSymbol enumeration symbol =>
    "default symbol '" ++ symbol ++ "' is not a symbol of enum " ++ enumeration
  | .noBits => "an integer type needs a positive number of bits"
  | .noFraction => "a fractional decimal needs a positive scale"
  | .noPrecision => "decimal precision must be positive"
  | .scaleExceedsPrecision scale precision =>
    "decimal scale " ++ toString scale ++ " exceeds precision " ++ toString precision
  | .nullDefault field => "field " ++ field ++ " is not optional and cannot default to null"
  | .defaultNotList field value =>
    "repeated field " ++ field ++ " needs a list as default, not " ++ value.compact

/-- Why a schema document has no counterpart among the types. -/
inductive ShapeFault where
  | unionOutsideField
  | notASchema (json : Json)
  | bareNull
  | noType (json : Json)
  | fixed
  | map
  | arrayOutsideField
  | noPrecision
  | notANumber (key : String) (value : Json)
  | notAString (key : String) (item : Json)
  | notAList (key : String) (value : Json)
  | unnamed
  | noFieldList (record : String)
  | notAField (json : Json)
  | unnamedField
  | untypedField (field : String)
  | nestedArray (field : String)
  | noBranch
  | manyBranches (count : Nat)
  | manyNulls
  deriving Repr

/-- The wording of a fault. -/
def ShapeFault.message : ShapeFault → String
  | .unionOutsideField => "unions are only supported as field types"
  | .notASchema json => "not a schema: " ++ json.compact
  | .bareNull => "null is only supported in unions"
  | .noType json => "schema without a type: " ++ json.compact
  | .fixed => "fixed types are not supported"
  | .map => "maps are not supported"
  | .arrayOutsideField => "arrays are only supported as field types"
  | .noPrecision => "decimal without a precision"
  | .notANumber key value =>
    "'" ++ key ++ "' must be a small non-negative integer, found " ++ value.compact
  | .notAString key item => "'" ++ key ++ "' must contain strings, found " ++ item.compact
  | .notAList key value => "'" ++ key ++ "' must be a list, found " ++ value.compact
  | .unnamed => "named type without a name"
  | .noFieldList record => "record " ++ record ++ " has no field list"
  | .notAField json => "not a record field: " ++ json.compact
  | .unnamedField => "record field without a name"
  | .untypedField field => "field " ++ field ++ " has no type"
  | .nestedArray field => "field " ++ field ++ " is a nested array"
  | .noBranch => "a union needs a non-null branch"
  | .manyBranches count =>
    "unions of " ++ toString count ++ " non-null branches are not supported"
  | .manyNulls => "a union can contain null only once"

/-- Why an operation does not suit the state of a struct or a field. -/
inductive StateFault where
  | fieldsAlreadySet (struct : String)
  | foreignField (field : String)
  | noFieldsYet (struct : String)
  | notTextual (struct : String)
  | emptyPath
  | notAStruct (segment path : String)
  deriving DecidableEq, Repr

/-- The wording of a fault. -/
def StateFault.message : StateFault → String
  | .fieldsAlreadySet struct => "fields of struct " ++ struct ++ " can be set only once"
  | .foreignField field => "field " ++ field ++ " already belongs to another struct"
  | .noFieldsYet struct => "struct " ++ struct ++ " has no fields yet"
  | .notTextual struct => "struct " ++ struct ++ " has fields, not a textual value"
  | .emptyPath => "the empty path addresses the root struct, not a field"
  | .notAStruct segment path => "field '" ++ segment ++ "' in path '" ++ path ++ "' is not a struct"

/-- The names among which a name has to be unique. -/
inductive Scope where
  | types
  | fieldsOf (struct : String)
  | ownNames
  deriving DecidableEq, Repr

/-- The wording of a scope. -/
def Scope.message : Scope → String
  | .types => "the type collection"
  | .fieldsOf struct => "the fields of struct " ++ struct
  | .ownNames => "its own names"

/-- Why a text is no literal of a leaf type. -/
inductive SyntaxFault where
  | boolean
  | float (fault : Binary.Fault)
  | hex (fault : Hex.Fault)
  | base64 (fault : Base64.Fault)
  | calendar (fault : Calendar.Fault)
  | integer (fault : Integer.Fault)
  | decimal (fault : Decimal.Fault)
  | symbol
  deriving DecidableEq, Repr

/-- The wording of a fault. -/
def SyntaxFault.message : SyntaxFault → String
  | .boolean => "expected 'true' or 'false'"
  | .float fault => fault.message
  | .hex fault => fault.message
  | .base64 fault => fault.message
  | .calendar fault => fault.message
  | .integer fault => fault.message
  | .decimal fault => fault.message
  | .symbol => "unknown symbol"

/-- Why a number cannot be represented by a decimal type. -/
inductive LossFault where
  | range (fault : Integer.Fault)
  | digits (count precision : Nat)
  | integerDigits (limit : Nat)
  | fractionDigits (limit : Nat)
  deriving DecidableEq, Repr

/-- The wording of a fault. -/
def LossFault.message : LossFault → String
  | .range fault => fault.message
  | .digits count precision =>
    toString count ++ " significant digits exceed precision " ++ toString precision
  | .integerDigits limit => "more than " ++ toString limit ++ " integer digits"
  | .fractionDigits limit => "more than " ++ toString limit ++ " fractional digits"

/-- Why a document is not a valid Avro schema. -/
inductive AvroFault where
  /-- A rule of the schema language is broken. -/
  | invalid
  /-- A logical type does not belong to the type that is written with this word. -/
  | mismatch (base : String)
  /-- A name or an alias is not made of identifiers. -/
  | malformedName (name : String)
  /-- A number is too large for the canonical form, or a size to count its bits. -/
  | tooLarge (number : Nat)
  /-- A branch that a default is tried with defines a name twice. -/
  | repeatedDefinition (name : String)
  /-- A branch that a default is tried with refers to a type that is not complete. -/
  | unknownReference (name : String)
  /-- A default leads to itself again and again. -/
  | endlessDefault
  deriving DecidableEq, Repr

/-- The fault is none that a reader reports, but one that ends it. -/
def AvroFault.isFatal : AvroFault → Bool
  | .invalid | .mismatch _ => false
  | _ => true

/-- An error of an operation on types, values or schemas. -/
inductive SchemaError where
  | construction (fault : ConstructionFault)
  | conflict (name : String) (scope : Scope)
  | shape (fault : ShapeFault)
  | malformed (kind input : String) (fault : SyntaxFault)
  | lossy (kind input : String) (fault : LossFault)
  | state (fault : StateFault)
  | unknownType (name : String)
  | unknownField (struct name : String)
  | unnamed (type path : String)
  | json (fault : Json.Fault)
  | avro (fault : AvroFault)
  deriving Repr

/-- The wording of an error. -/
def SchemaError.message : SchemaError → String
  | .construction fault => "Invalid construction: " ++ fault.message
  | .conflict name scope =>
    "Naming conflict: '" ++ name ++ "' is already used in " ++ scope.message
  | .shape fault => "Unsupported schema shape: " ++ fault.message
  | .malformed kind input fault =>
    "Cannot parse '" ++ input ++ "' as " ++ kind ++ ": " ++ fault.message
  | .lossy kind input fault =>
    "Cannot represent '" ++ input ++ "' as " ++ kind ++ " without loss: " ++ fault.message
  | .state fault => "Invalid state: " ++ fault.message
  | .unknownType name => "Type not found: " ++ name
  | .unknownField struct name => "Field not found: " ++ struct ++ "." ++ name
  | .unnamed type path =>
    "Type has no name or documentation: " ++ type ++ " at '" ++ path ++ "'"
  | .json fault => "JSON error: " ++ fault.message
  | .avro _ => "Avro error"

/-- The text was no literal of its type. -/
def SchemaError.isSyntax : SchemaError → Bool
  | .malformed .. => true
  | _ => false

/-- The text was a literal of its type, of a number that the type cannot hold. -/
def SchemaError.isPrecision : SchemaError → Bool
  | .lossy .. => true
  | _ => false

end Schemata
