import Schemata.Registry.Basic

/-!
# Exporting Avro Schemas

From a type to its canonical schema document. A named type is defined where
it is first met, and every later use is its name. Members stand in the order
of their keys.

Names are written in full. Within a record of some namespace a name without
a dot would be read as a name of that namespace, so its definition says that
it has none.

What has been written and the namespace around it are the state of an export. A
struct replaces the namespace while its fields are written.

## Main definitions

* `Avro.Exporting`, `Avro.Export`: The state of an export, and its computations.
* `Avro.exportType`: The document of a type, going on from some state.
* `Exporter.run`: The document of a type, from a clean start.
* `toSchema`: The document of a type.
-/

namespace Schemata

namespace Avro

/-! ### Documents of single types -/

/-- An optional member. -/
def member? (key : String) (value : Option Json) : List (String × Json) :=
  value.toList.map (key, ·)

/-- A list of strings as a document. -/
def ofStrings (names : List String) : Json :=
  .array (names.map .string)

/-- The member with the aliases, unless there are none. -/
def aliasMember (names : Names) : List (String × Json) :=
  if names.aliases.toList = [] then [] else [("aliases", ofStrings names.aliases.toList)]

/-- The member with the documentation, if there is one. -/
def docMember (documentation : Option String) : List (String × Json) :=
  member? "doc" (documentation.map .string)

/-- The name, and that it has no namespace where it would be taken to have one. -/
def nameMembers (space : Option String) (name : String) : List (String × Json) :=
  ("name", .string name) ::
    if hasDot name = false ∧ space.isSome then [("namespace", .string "")] else []

/-- A primitive with a logical type. -/
def logicalSchema (primitive logical : String) : Json :=
  .object [("logicalType", .string logical), ("type", .string primitive)]

/-- The document of a scalar type. -/
def scalarSchema : ScalarKind → Json
  | .boolean => .string "boolean"
  | .float => .string "float"
  | .double => .string "double"
  | .string => .string "string"
  | .binaryHex | .binaryBase64 => .string "bytes"
  | .date => logicalSchema "int" "date"
  | .time => logicalSchema "int" "time-millis"
  | .timeMicros => logicalSchema "long" "time-micros"
  | .dateTime => logicalSchema "long" "timestamp-millis"
  | .dateTimeMicros => logicalSchema "long" "timestamp-micros"

/-- The document of a decimal type. -/
def decimalSchema (type : DecimalType) : Json :=
  if type = .int then .string "int"
  else if type = .long then .string "long"
  else
    .object [("logicalType", .string "decimal"), ("precision", .int type.precision),
      ("scale", .int type.scale), ("type", .string "bytes")]

/-- The definition of an enum. -/
def enumSchema (space : Option String) (enumeration : EnumType) : Json :=
  .object (aliasMember enumeration.names ++
    member? "default" (enumeration.default.map .string) ++
    docMember enumeration.documentation ++ nameMembers space enumeration.name ++
    [("symbols", ofStrings enumeration.symbols), ("type", .string "enum")])

/-- The definition of a struct, given the documents of its fields. -/
def structSchema (space : Option String) (struct : StructType) (fields : List Json) : Json :=
  .object (aliasMember struct.names ++ docMember struct.documentation ++
    [("fields", .array fields)] ++ nameMembers space struct.name ++ [("type", .string "record")])

/-- The list type of some items. -/
def arraySchema (items : Json) : Json :=
  .object [("items", items), ("type", .string "array")]

/-- The type of a field and its default. The default of a union has to suit its first
    branch, so null comes first unless the default is a literal. -/
def fieldType (type : Json) : Cardinality → Default → Json × Option Json
  | .required, .literal value => (type, some value)
  | .required, _ => (type, none)
  | .optional, .none => (.array [.string "null", type], none)
  | .optional, .null => (.array [.string "null", type], some .null)
  | .optional, .literal value => (.array [type, .string "null"], some value)
  | .repeated, .literal value => (arraySchema type, some value)
  | .repeated, _ => (arraySchema type, some (.array []))

/-- The document of a field, given that of its type. -/
def fieldSchema (field : Field) (type : Json) : Json :=
  let (type, default) := fieldType type field.cardinality field.default
  .object (aliasMember field.names ++ member? "default" default ++
    docMember field.documentation ++ [("name", .string field.name), ("type", type)])

/-! ### The walk -/

/-- The named types that are written already. -/
abbrev Written :=
  List Handle

/-- What an export keeps in mind while it goes on. -/
structure Exporting where
  written : Written
  /-- The namespace around what is being written. -/
  space : Option String
  deriving DecidableEq, Repr

/-- A computation that writes types, and remembers the named ones. -/
abbrev Export :=
  EStateM SchemaError Exporting

namespace Export

/-- Forget what has been written, and where. -/
def clear : Export Unit :=
  set (⟨[], none⟩ : Exporting)

/-- Remember that a named type is written. -/
def define (handle : Handle) : Export Unit :=
  modify fun s => { s with written := handle :: s.written }

/-- A computation within another namespace. The one around it comes back at the end, and also
    where the computation fails. -/
def within (space : Option String) (x : Export α) : Export α :=
  fun s =>
    match x { s with space := space } with
    | .ok a s' => .ok a { s' with space := s.space }
    | .error e s' => .error e { s' with space := s.space }

end Export

/-- The fields of a struct, in order, with the export of their types. -/
def exportFields (exportType : Ty → Export Json) : List Field → Export (List Json)
  | [] => pure []
  | field :: rest => do
    let type ← exportType field.type
    let fields ← exportFields exportType rest
    return fieldSchema field type :: fields

/-- The definition of a named type, with the export of the types within it. What a struct holds
    is within the namespace of its name. -/
def exportDefinition (r : Registry) (exportType : Ty → Export Json) : Handle → Export Json
  | .enumeration index => do return enumSchema (← get).space (r.enumeration index)
  | .struct index =>
    match (r.struct index).fields with
    | none => throw (.state (.noFieldsYet (r.struct index).name))
    | some fields => do
      let space := (← get).space
      let documents ← Export.within (namespaceOf? (r.struct index).name)
        (exportFields exportType fields)
      return structSchema space (r.struct index) documents

/-- A named type: its definition where it is first met, and then its name. -/
def exportNamed (r : Registry) (exportType : Ty → Export Json) (handle : Handle) :
    Export Json := do
  if handle ∈ (← get).written then return .string (r.nameOf handle)
  else do
    -- Remembered before its parts are written, so that they can refer to it.
    Export.define handle
    exportDefinition r exportType handle

/-- A type, with the export of the types within it. Unparsed content has the type of what
    it is. -/
def exportTypeWith (r : Registry) (exportType : Ty → Export Json) (type : Ty) : Export Json :=
  match type.core with
  | .named handle => exportNamed r exportType handle
  | .decimal type => pure (decimalSchema type)
  | .scalar kind => pure (scalarSchema kind)
  -- The core of a type is never unparsed.
  | .unparsed _ => throw (.state (.noFieldsYet ""))

/-- The document of a type; definitions of structs may nest to a depth. -/
def exportTypeAt (r : Registry) : (depth : Nat) → Ty → Export Json
  | 0 => exportTypeWith r fun _ => throw (.state (.noFieldsYet ""))
  | depth + 1 => exportTypeWith r (exportTypeAt r depth)

/-- The document of a type. No struct is defined within itself, so the number of structs bounds
    how deep definitions nest. -/
def exportType (r : Registry) (type : Ty) : Export Json :=
  exportTypeAt r r.structs.length type

/-- The document of a type, written anew. -/
def exportRoot (r : Registry) (type : Ty) : Export Json := do
  Export.clear
  exportType r type

end Avro

/-- What a series of exports from one registry has written so far. Between two of them there is
    no namespace: whatever an export enters it leaves, also if it fails. -/
structure Exporter where
  written : Avro.Written
  deriving Repr

/-- The document of a type. An export starts anew, whatever the one before it has written
    or where it failed. -/
def Exporter.run (exporter : Exporter) (r : Registry) (type : Ty) :
    Except SchemaError Json × Exporter :=
  match Avro.exportRoot r type ⟨exporter.written, none⟩ with
  | .ok json s => (.ok json, ⟨s.written⟩)
  | .error e s => (.error e, ⟨s.written⟩)

/-- The document of a type. -/
def toSchema (r : Registry) (type : Ty) : Except SchemaError Json :=
  (Exporter.run ⟨[]⟩ r type).1

end Schemata
