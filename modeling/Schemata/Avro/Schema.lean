import Schemata.Json.Basic

/-!
# Validated Avro Schemas

Avro schemas as trees, the outcome of reading a document by the rules of the
schema language. Unlike the types of a registry they keep every construct of
the language; a reference is a full name. A duration does not keep the type
that it stands on.

## Main definitions

* `Avro.Logical`: The logical types that carry no parameters.
* `Avro.Schema`: A schema.
* `Avro.Kind`: What tells the branches of a union apart.
-/

namespace Schemata

namespace Avro

/-- A logical type without parameters. -/
inductive Logical where
  | uuid
  | date
  | timeMillis
  | timeMicros
  | timestampMillis
  | timestampMicros
  | localTimestampMillis
  | localTimestampMicros
  deriving DecidableEq, Repr

namespace Logical

/-- The name of a logical type in a document. -/
def name : Logical → String
  | .uuid => "uuid"
  | .date => "date"
  | .timeMillis => "time-millis"
  | .timeMicros => "time-micros"
  | .timestampMillis => "timestamp-millis"
  | .timestampMicros => "timestamp-micros"
  | .localTimestampMillis => "local-timestamp-millis"
  | .localTimestampMicros => "local-timestamp-micros"

/-- Every logical type without parameters. -/
def all : List Logical :=
  [.uuid, .date, .timeMillis, .timeMicros, .timestampMillis, .timestampMicros,
    .localTimestampMillis, .localTimestampMicros]

/-- The primitive type that a logical type stands on. -/
def baseName : Logical → String
  | .uuid => "string"
  | .date | .timeMillis => "int"
  | _ => "long"

/-- The logical type of a name. -/
def ofName? (name : String) : Option Logical :=
  all.find? (·.name = name)

end Logical

/-- What tells the branches of a union apart. -/
inductive Kind where
  | null
  | boolean
  | int
  | long
  | float
  | double
  | bytes
  | string
  | array
  | map
  | union
  | decimal
  | duration
  | logical (type : Logical)
  /-- Named types are told apart by their names, not by their kind. -/
  | named
  deriving DecidableEq, Repr

/-- A schema. -/
inductive Schema where
  | null
  | boolean
  | int
  | long
  | float
  | double
  | bytes
  | string
  | array (items : Schema)
  | map (values : Schema)
  | union (branches : List Schema)
  | record (name : String) (fields : List (String × Schema × Option Json))
  | enumeration (name : String) (symbols : List String) (default : Option String)
  | fixed (name : String) (size : Nat)
  | decimal (precision scale : Nat) (base : Schema)
  | duration
  | logical (type : Logical)
  | reference (name : String)
  deriving Repr

namespace Schema

/-- The kind of a schema. -/
def kind : Schema → Kind
  | .null => .null
  | .boolean => .boolean
  | .int => .int
  | .long => .long
  | .float => .float
  | .double => .double
  | .bytes => .bytes
  | .string => .string
  | .array _ => .array
  | .map _ => .map
  | .union _ => .union
  | .record .. | .enumeration .. | .fixed .. | .reference _ => .named
  | .decimal .. => .decimal
  | .duration => .duration
  | .logical type => .logical type

/-- The primitive type of a name. -/
def primitive? (name : String) : Option Schema :=
  match name with
  | "null" => some .null
  | "boolean" => some .boolean
  | "int" => some .int
  | "long" => some .long
  | "float" => some .float
  | "double" => some .double
  | "bytes" => some .bytes
  | "string" => some .string
  | _ => none

end Schema

end Avro

end Schemata
