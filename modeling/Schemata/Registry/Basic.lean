import Schemata.Registry.Types

/-!
# Registries

A registry owns the structs and enums of a type graph, each under a handle
that never changes. Names and aliases are unique over all of them, so a name
finds at most one type; there is no index beside the types themselves that
could disagree with them.

A registry has a token. A struct stamps the fields it takes in with the token
and its own place, and refuses fields that bear another stamp.

## Main definitions

* `Registry`: The structs and enums of a graph.
* `Registry.find?`, `Registry.get`: The handle that a name stands for.
* `Registry.registerStruct`, `Registry.registerEnum`: Adding a type.
* `Registry.setFields`: Assigning the fields of a struct, once.
* `Registry.rename`, `Registry.renameField`, …: Edits in place.
* `Registry.parseValue`: The value that a text stands for.
* `Registry.checkpoint`, `Registry.rollback`: Dropping what was added.
-/

namespace Schemata

/-- The structs and enums of a type graph. -/
structure Registry where
  /-- What tells the structs of this registry from those of another. -/
  token : Nat
  structs : List StructType
  enums : List EnumType
  deriving Repr

/-- How many types a registry had at some moment. -/
structure Checkpoint where
  structs : Nat
  enums : Nat
  deriving DecidableEq, Repr

namespace Registry

/-- A registry without types. -/
def new (token : Nat) : Registry :=
  ⟨token, [], []⟩

/-- The number of types. -/
def size (r : Registry) : Nat :=
  r.structs.length + r.enums.length

/-! ### Lookup -/

/-- The struct at a place. -/
def struct (r : Registry) (index : Nat) : StructType :=
  r.structs.getD index .nameless

/-- The enum at a place. -/
def enumeration (r : Registry) (index : Nat) : EnumType :=
  r.enums.getD index .nameless

/-- Live name and aliases of a type. -/
def namesOf (r : Registry) : Handle → Names
  | .struct index => (r.struct index).names
  | .enumeration index => (r.enumeration index).names

/-- The live name of a type. -/
def nameOf (r : Registry) (handle : Handle) : String :=
  (r.namesOf handle).name

/-- The handle of the type that carries a name. -/
def find? (r : Registry) (name : String) : Option Handle :=
  match r.structs.findIdx? (·.names.Carries name) with
  | some index => some (.struct index)
  | none => (r.enums.findIdx? (·.names.Carries name)).map .enumeration

/-- The handle of the type that carries a name. -/
def get (r : Registry) (name : String) : Except SchemaError Handle :=
  match r.find? name with
  | some handle => .ok handle
  | none => .error (.unknownType name)

/-! ### Registration -/

/-- None of the names may be carried by a type; the first that is decides the error. -/
def checkUnused (r : Registry) (names : Names) : Except SchemaError Unit :=
  match names.all.find? fun name => (r.find? name).isSome with
  | some name => .error (.conflict name .types)
  | none => .ok ()

/-- Add a struct; its place is behind the others. -/
def registerStruct (r : Registry) (struct : StructType) : Except SchemaError (Registry × Nat) := do
  r.checkUnused struct.names
  return ({ r with structs := r.structs ++ [struct] }, r.structs.length)

/-- Add an enum; its place is behind the others. -/
def registerEnum (r : Registry) (enumeration : EnumType) :
    Except SchemaError (Registry × Nat) := do
  r.checkUnused enumeration.names
  return ({ r with enums := r.enums ++ [enumeration] }, r.enums.length)

/-- How many types there are. -/
def checkpoint (r : Registry) : Checkpoint :=
  ⟨r.structs.length, r.enums.length⟩

/-- Drop every type that was added since. -/
def rollback (r : Registry) (c : Checkpoint) : Registry :=
  { r with structs := r.structs.take c.structs, enums := r.enums.take c.enums }

/-! ### Edits -/

/-- The stamp of a struct of this registry. -/
def owner (r : Registry) (index : Nat) : Owner :=
  ⟨r.token, index⟩

/-- Put a struct in the place of another. -/
def setStruct (r : Registry) (index : Nat) (struct : StructType) : Registry :=
  { r with structs := r.structs.set index struct }

/-- Put an enum in the place of another. -/
def setEnum (r : Registry) (index : Nat) (enumeration : EnumType) : Registry :=
  { r with enums := r.enums.set index enumeration }

/-- Assign the fields of a struct. -/
def setFields (r : Registry) (index : Nat) (fields : List Field) :
    Except SchemaError Registry := do
  return r.setStruct index (← (r.struct index).adopt (r.owner index) fields)

/-- Another type than the given one carries the name. -/
def takenElsewhere (r : Registry) (handle : Handle) (name : String) : Bool :=
  (r.find? name).any (· ≠ handle)

/-- Rename a type; no other type may carry the name. -/
def rename (r : Registry) (handle : Handle) (name : String) : Except SchemaError Registry := do
  let names ← (r.namesOf handle).rename name .types (r.takenElsewhere handle name)
  match handle with
  | .struct index => return r.setStruct index { r.struct index with names := names }
  | .enumeration index => return r.setEnum index { r.enumeration index with names := names }

/-- Document a type, or take its documentation away. -/
def document (r : Registry) (handle : Handle) (documentation : Option String) : Registry :=
  match handle with
  | .struct index =>
    r.setStruct index { r.struct index with documentation := documentation }
  | .enumeration index =>
    r.setEnum index { r.enumeration index with documentation := documentation }

/-- Rename the field at a place of a struct. -/
def renameFieldAt (r : Registry) (index position : Nat) (name : String) :
    Except SchemaError Registry := do
  return r.setStruct index (← (r.struct index).renameAt position name)

/-- Rename the field of a struct that carries a name. -/
def renameField (r : Registry) (index : Nat) (field name : String) :
    Except SchemaError Registry := do
  r.renameFieldAt index (← (r.struct index).position field) name

/-- Document the field at a place of a struct. -/
def documentFieldAt (r : Registry) (index position : Nat) (documentation : Option String) :
    Registry :=
  r.setStruct index ((r.struct index).documentAt position documentation)

/-- Document the field of a struct that carries a name. -/
def documentField (r : Registry) (index : Nat) (field : String)
    (documentation : Option String) : Except SchemaError Registry := do
  return r.documentFieldAt index (← (r.struct index).position field) documentation

/-! ### Values -/

/-- The value that a text stands for. Structs have no textual values; unparsed content is
    read as what it is. -/
def parseValue (r : Registry) (type : Ty) (input : Option String) :
    Except SchemaError (Option Value) :=
  match type with
  | .scalar kind => kind.parse input
  | .decimal type => type.parse input
  | .named (.enumeration index) => (r.enumeration index).parse input
  | .named (.struct index) => .error (.state (.notTextual (r.struct index).name))
  | .unparsed inner => r.parseValue inner input

end Registry

end Schemata
