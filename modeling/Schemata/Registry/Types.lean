import Schemata.DecimalType
import Schemata.Names
import Schemata.Scalar

/-!
# Types and Fields

What a type graph is made of. Leaf types are values; structs and enums live
in a registry and are referred to by handle, which is how a graph shares a
type or comes back to it.

The rules that tie a field's default to its cardinality, and an enum's
default symbol to its symbols, are part of the types, so every field and
every enum keeps them.

## Main definitions

* `Handle`, `Ty`: A reference to a named type; a type.
* `Cardinality`, `Default`: How many values a field holds, and its default.
* `Field`, `StructType`, `EnumType`: The parts of a graph.
* `EnumType.parse`: The symbol that a text stands for.
-/

namespace Schemata

/-- A reference to a struct or an enum, by its place in a registry. -/
inductive Handle where
  | struct (index : Nat)
  | enumeration (index : Nat)
  deriving DecidableEq, Repr

/-- A type. -/
inductive Ty where
  | scalar (kind : ScalarKind)
  | decimal (type : DecimalType)
  | named (handle : Handle)
  /-- Content kept as it is, not taken apart. -/
  | unparsed (inner : Ty)
  deriving DecidableEq, Repr

namespace Ty

/-- The type carries a name. -/
def isNamed : Ty → Bool
  | .named _ => true
  | _ => false

/-- The type under all its unparsed layers. -/
def core : Ty → Ty
  | .unparsed inner => inner.core
  | type => type

/-- The number of unparsed layers. -/
def layers : Ty → Nat
  | .unparsed inner => inner.layers + 1
  | _ => 0

/-- The struct that a type is, perhaps under unparsed layers. -/
def struct? (t : Ty) : Option Nat :=
  match t.core with
  | .named (.struct i) => some i
  | _ => none

end Ty

/-- How many values a field holds. -/
inductive Cardinality where
  | required
  | optional
  | repeated
  deriving DecidableEq, Repr

namespace Cardinality

/-- Every cardinality. -/
def all : List Cardinality :=
  [.required, .optional, .repeated]

/-- What follows the name of a field when it is shown. -/
def suffix : Cardinality → String
  | .required => ""
  | .optional => "?"
  | .repeated => "[]"

/-- The name under which a cardinality is stored. -/
def storedName : Cardinality → String
  | .required => "required"
  | .optional => "optional"
  | .repeated => "repeated"

end Cardinality

/-- The default of a field. -/
inductive Default where
  | none
  | null
  | literal (value : Json)
  deriving Repr

namespace Default

/-- There is a default. -/
def isPresent : Default → Bool
  | .none => false
  | _ => true

/-- The default as it is shown; a text stands without quotation marks. -/
def text : Default → String
  | .none => ""
  | .null => "null"
  | .literal (.string value) => value
  | .literal value => value.compact

/-- The default suits the cardinality: null only where a value may be missing, and a list
    where there are several. A literal is never null. -/
def suits : Default → Cardinality → Bool
  | .none, _ => true
  | .null, cardinality => cardinality = .optional
  | .literal .null, _ => false
  | .literal (.array _), _ => true
  | .literal _, cardinality => cardinality ≠ .repeated

/-- The two defaults are equal, as documents where they are literals. -/
def same : Default → Default → Bool
  | .none, .none => true
  | .null, .null => true
  | .literal a, .literal b => a.same b
  | _, _ => false

/-- A literal as a default: a null literal is the null default. -/
def ofLiteral : Json → Default
  | .null => .null
  | value => .literal value

/-- The default with a null literal counted as the null default. -/
def normal : Default → Default
  | .none => .none
  | .null => .null
  | .literal value => ofLiteral value

/-- The empty list, the default of repeated fields. -/
def emptyList : Default :=
  .literal (.array [])

end Default

/-- The struct that has taken in a field: the token of its registry and its place. -/
structure Owner where
  token : Nat
  index : Nat
  deriving DecidableEq, Repr

/-- A field. -/
structure Field where
  names : Names
  documentation : Option String
  cardinality : Cardinality
  type : Ty
  default : Default
  owner : Option Owner
  suits : default.suits cardinality = true
  deriving Repr

namespace Field

/-- A field without aliases, documentation and default. -/
def new (name : String) (cardinality : Cardinality) (type : Ty) : Field :=
  ⟨.single name, none, cardinality, type, .none, none, rfl⟩

/-- The live name. -/
def name (field : Field) : String :=
  field.names.name

/-- Replace the aliases. -/
def withAliases (field : Field) (aliases : List String) : Except ConstructionFault Field := do
  return { field with names := ← Names.new field.name aliases }

/-- Replace the documentation. -/
def withDocumentation (field : Field) (documentation : Option String) : Field :=
  { field with documentation := documentation }

/-- Why a default does not suit a field. -/
def defaultFault (field : Field) : Default → ConstructionFault
  | .literal value => .defaultNotList field.name value
  | _ => .nullDefault field.name

/-- Replace the default. A null literal counts as the null default. -/
def withDefault (field : Field) (default : Default) : Except ConstructionFault Field :=
  if h : default.normal.suits field.cardinality = true then
    .ok { field with default := default.normal, suits := h }
  else .error (field.defaultFault default.normal)

/-- Rename a field that no struct has taken in; only its own names are in scope. -/
def rename (field : Field) (name : String) : Except SchemaError Field := do
  return { field with names := ← field.names.rename name .ownNames false }

end Field

/-- A record type. Its fields are assigned once, after the type is registered. -/
structure StructType where
  names : Names
  documentation : Option String
  fields : Option (List Field)
  deriving Repr

namespace StructType

/-- A struct whose fields are not assigned yet. -/
def new (name : String) (aliases : List String) (documentation : Option String) :
    Except ConstructionFault StructType := do
  return ⟨← Names.new name aliases, documentation, none⟩

/-- What a handle that names nothing stands for. -/
def nameless : StructType :=
  ⟨.single "", none, none⟩

/-- The live name. -/
def name (struct : StructType) : String :=
  struct.names.name

/-- The place of the field that carries a name, among some fields. -/
def fieldIndex? (fields : List Field) (name : String) : Option Nat :=
  fields.findIdx? (·.names.Carries name)

/-- The place of the field that carries a name. -/
def position (struct : StructType) (name : String) : Except SchemaError Nat :=
  match struct.fields with
  | none => .error (.state (.noFieldsYet struct.name))
  | some fields =>
    match fieldIndex? fields name with
    | some index => .ok index
    | none => .error (.unknownField struct.name name)

/-- The field that carries a name. -/
def getField (struct : StructType) (name : String) : Except SchemaError Field :=
  match struct.fields with
  | none => .error (.state (.noFieldsYet struct.name))
  | some fields =>
    match fields.find? (·.names.Carries name) with
    | some field => .ok field
    | none => .error (.unknownField struct.name name)

/-- Take in a field list. It is refused if there is one already, if a field belongs to
    another struct, or if two fields share a name. -/
def adopt (struct : StructType) (owner : Owner) (fields : List Field) :
    Except SchemaError StructType :=
  if struct.fields.isSome then .error (.state (.fieldsAlreadySet struct.name))
  else
    match fields.find? fun field => field.owner.any (· ≠ owner) with
    | some field => .error (.state (.foreignField field.name))
    | none =>
      match firstRepeated? [] (fields.flatMap (·.names.all)) with
      | some name => .error (.conflict name (.fieldsOf struct.name))
      | none =>
        .ok { struct with fields := some (fields.map fun field => { field with owner := owner }) }

/-- Rename the field at a place; no other field may carry the name. -/
def renameAt (struct : StructType) (index : Nat) (name : String) :
    Except SchemaError StructType :=
  match struct.fields with
  | none => .ok struct
  | some fields =>
    match fields[index]? with
    | none => .ok struct
    | some field => do
      let taken := (fieldIndex? fields name).any (· ≠ index)
      let names ← field.names.rename name (.fieldsOf struct.name) taken
      return { struct with fields := some (fields.set index { field with names := names }) }

/-- Document the field at a place. -/
def documentAt (struct : StructType) (index : Nat) (documentation : Option String) :
    StructType :=
  { struct with
    fields := struct.fields.map fun fields =>
      fields.modify index (·.withDocumentation documentation) }

end StructType

/-- A closed set of symbols, one of which may stand in for unknown ones. -/
structure EnumType where
  names : Names
  documentation : Option String
  symbols : List String
  default : Option String
  symbols_ne_nil : symbols ≠ []
  symbols_nodup : symbols.Nodup
  default_mem : ∀ symbol ∈ default, symbol ∈ symbols
  deriving DecidableEq, Repr

namespace EnumType

/-- An enum: its symbols are at least one and distinct, and its default is one of them. -/
def new (name : String) (aliases : List String) (documentation : Option String)
    (symbols : List String) (default : Option String) : Except ConstructionFault EnumType := do
  let names ← Names.new name aliases
  if hn : symbols = [] then .error (.noSymbols name)
  else
    match hr : firstRepeated? [] symbols with
    | some symbol => .error (.repeatedSymbol name symbol)
    | none =>
      if hd : ∀ symbol ∈ default, symbol ∈ symbols then
        .ok ⟨names, documentation, symbols, default, hn,
          firstRepeated?_nil_eq_none_iff.1 hr, hd⟩
      else .error (.unknownDefaultSymbol name (default.getD ""))

/-- What a handle that names nothing stands for. -/
def nameless : EnumType :=
  ⟨.single "", none, [""], none, by decide, by decide, by simp⟩

/-- The live name. -/
def name (enumeration : EnumType) : String :=
  enumeration.names.name

/-- The symbol of a text; an unknown one gives the default symbol, if there is one.
    Without a text there is no value. -/
def parse (enumeration : EnumType) : Option String → Except SchemaError (Option Value)
  | none => .ok none
  | some text =>
    if text ∈ enumeration.symbols then .ok (some (.symbol text))
    else
      match enumeration.default with
      | some symbol => .ok (some (.symbol symbol))
      | none => .error (.malformed ("enum " ++ enumeration.name) text .symbol)

/-- The enum on one line: names, symbols and default. -/
def text (enumeration : EnumType) : String :=
  "enum(" ++ String.intercalate ", " enumeration.names.all ++ ": " ++
    String.intercalate ", " enumeration.symbols ++
    (match enumeration.default with
      | some symbol => "; " ++ symbol
      | none => "") ++ ")"

end EnumType

end Schemata
