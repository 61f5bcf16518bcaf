import Schemata.Avro.Schema
import Schemata.Text.Encoding

/-!
# Data

Values as the schema language types them. A document is a datum of few types
only: its integers are long, its numbers with a point are double, and its
objects are maps. Resolving a datum with a schema gives it the type that the
schema asks for, and then it may suit other schemas than the document did.

The numbers with a point are left out, since no rule looks at them.

## Main definitions

* `Datum`: A typed value.
* `Datum.ofJson`: The datum of a document.
* `Datum.kind`: The kind of schema that a datum belongs to.
-/

namespace Schemata

namespace Avro

/-- A typed value. -/
inductive Datum where
  | null
  | boolean
  | int (value : Int)
  | long (value : Int)
  | float
  | double
  | bytes (content : List UInt8)
  | string (text : String)
  | array (items : List Datum)
  | map (members : List (String × Datum))
  /-- A value of a union. -/
  | union (value : Datum)
  | record (fields : List (String × Datum))
  | enumeration (symbol : String)
  | fixed (content : List UInt8)
  /-- A decimal of some bytes. -/
  | decimal (size : Nat)
  | duration
  | logical (type : Logical)
  deriving Repr

namespace Datum

instance : Inhabited Datum :=
  ⟨.null⟩

mutual

/-- The datum of a document. -/
def ofJson : Json → Datum
  | .null => .null
  | .bool _ => .boolean
  | .int value => .long value
  | .float _ => .double
  | .string text => .string text
  | .array items => .array (ofItems items)
  | .object members => .map (ofMembers members)

/-- The data of the items of a list. -/
def ofItems : List Json → List Datum
  | [] => []
  | item :: rest => ofJson item :: ofItems rest

/-- The data of the members of an object. -/
def ofMembers : List (String × Json) → List (String × Datum)
  | [] => []
  | (key, value) :: rest => (key, ofJson value) :: ofMembers rest

end

/-- The kind of schema that a datum belongs to. -/
def kind : Datum → Kind
  | .null => .null
  | .boolean => .boolean
  | .int _ => .int
  | .long _ => .long
  | .float => .float
  | .double => .double
  | .bytes _ => .bytes
  | .string _ => .string
  | .array _ => .array
  | .map _ => .map
  | .union _ => .union
  | .record _ | .enumeration _ | .fixed _ => .named
  | .decimal _ => .decimal
  | .duration => .duration
  | .logical type => .logical type

/-- The value of a union by itself. -/
def unwrap : Datum → Datum
  | .union value => value
  | value => value

end Datum

end Avro

end Schemata
