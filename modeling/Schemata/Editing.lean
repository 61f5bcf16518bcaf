import Schemata.Outline
import Schemata.Text.Blank

/-!
# Editing by Path

A path walks from a root struct through fields to one of them, by live names
or aliases. An edit renames or documents the field at its end, or the named
type that the field holds, and leaves the rest of the graph as it was. The
empty path stands for the root struct itself.

## Main definitions

* `FieldPath`: The names on the way; `parse` and `text`.
* `FieldAddress`, `Registry.locate`: The place of the field at a path's end.
* `Registry.resolve`: The type at a path's end.
* `Edit`, `Registry.edit`: The four edits.
-/

namespace Schemata

/-- The names of fields on the way from a root struct. -/
structure FieldPath where
  segments : List String
  deriving DecidableEq, Repr

namespace FieldPath

/-- The path to the root struct itself. -/
def root : FieldPath :=
  ⟨[]⟩

/-- The path has no field. -/
def isRoot (path : FieldPath) : Bool :=
  path.segments.isEmpty

/-- The path of a text: names between dots, each without the blanks around it. A text of
    blanks alone is the path to the root. -/
def parse (text : String) : FieldPath :=
  match Text.trimChars text.toList with
  | [] => root
  | cs => ⟨(cs.splitOn '.').map fun segment => String.ofList (Text.trimChars segment)⟩

/-- The names with dots between them. -/
def text (path : FieldPath) : String :=
  String.intercalate "." path.segments

end FieldPath

/-- The place of a field: its struct, and its position there. -/
structure FieldAddress where
  struct : Nat
  position : Nat
  deriving DecidableEq, Repr

namespace Registry

/-- Walk through fields that hold structs; `path` is the whole path, for the message. -/
def walk (r : Registry) (path : FieldPath) (index : Nat) : List String → Except SchemaError Nat
  | [] => .ok index
  | segment :: rest => do
    let field ← (r.struct index).getField segment
    match field.type with
    | .named (.struct next) => r.walk path next rest
    | _ => .error (.state (.notAStruct segment path.text))

/-- The place of the field at the end of a path. -/
def locate (r : Registry) (root : Nat) (path : FieldPath) : Except SchemaError FieldAddress :=
  match path.segments.getLast? with
  | none => .error (.state .emptyPath)
  | some last => do
    let index ← r.walk path root path.segments.dropLast
    return ⟨index, ← (r.struct index).position last⟩

/-- The field at a place. -/
def fieldAt? (r : Registry) (address : FieldAddress) : Option Field :=
  (r.struct address.struct).fields.bind (·[address.position]?)

/-- The type at the end of a path. -/
def resolve (r : Registry) (root : Nat) (path : FieldPath) : Except SchemaError Ty :=
  if path.isRoot then .ok (.named (.struct root))
  else do
    let address ← r.locate root path
    match r.fieldAt? address with
    | some field => return field.type
    | none => .error (.state .emptyPath)

/-- The struct or enum at the end of a path. -/
def resolveNamed (r : Registry) (root : Nat) (path : FieldPath) : Except SchemaError Handle := do
  match ← r.resolve root path with
  | .named handle => return handle
  | type => .error (.unnamed (r.display type) path.text)

end Registry

/-- An edit of what is at the end of a path. -/
inductive Edit where
  | renameField (name : String)
  | renameType (name : String)
  | documentField (text : String)
  | documentType (text : String)
  deriving DecidableEq, Repr

/-- Make an edit at the end of a path from a root struct. -/
def Registry.edit (r : Registry) (root : Nat) (path : FieldPath) :
    Edit → Except SchemaError Registry
  | .renameField name => do
    let address ← r.locate root path
    r.renameFieldAt address.struct address.position name
  | .renameType name => do r.rename (← r.resolveNamed root path) name
  | .documentField text => do
    let address ← r.locate root path
    return r.documentFieldAt address.struct address.position (some text)
  | .documentType text => do
    return r.document (← r.resolveNamed root path) (some text)

end Schemata
