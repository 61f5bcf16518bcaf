import Schemata.Avro.Import
import Schemata.Avro.Resolution

/-!
# Reading a Schema by the Rules of the Language

The schema that a document stands for, or that it breaks a rule. This is
stricter than an import, since names, defaults and unions have to be right,
and wider, since it knows every construct.

Types are referred to by full name or alias. A record can be referred to from
within, so it is pending while its fields are read and complete afterwards.
While a type is pending each of its names leads to its full name; when it is
complete a reference keeps the name that it was written with.

The description of a field is read as if it was a schema: a logical type may
stand beside its type, and a field of type `enum` has its symbols there.

A logical type that does not belong to its base is a fault of its own kind.
Most logical types then give way to the type that the base is written with,
also if the fault is one of a logical type inside of the base.

## Main definitions

* `Seen`: The types that can be referred to.
* `Validation`: A computation that meets types, or breaks a rule.
* `readSchema`: The schema of a document within a namespace.
* `Avro.Schema.ofJson`: The schema of a document.
-/

namespace Schemata

namespace Avro

/-- The types that can be referred to. -/
structure Seen where
  /-- The names and aliases of the records that are being read, each with its full name. -/
  pending : List (String × String)
  /-- The types that are read, under full names and aliases. -/
  complete : Environment
  deriving Repr

namespace Seen

/-- No type can be referred to. -/
def empty : Seen :=
  ⟨[], []⟩

/-- Start to read a record. -/
def start (seen : Seen) (name : String) (aliases : List String) : Seen :=
  { seen with pending := ((name :: aliases).map (·, name)).reverse ++ seen.pending }

/-- Have read a type. -/
def finish (seen : Seen) (name : String) (aliases : List String) (schema : Schema) : Seen where
  pending := seen.pending.filter fun (key, _) => key ∉ name :: aliases
  complete := ((name :: aliases).map (·, schema)).reverse ++ seen.complete

/-- What a reference stands for. -/
def refer? (seen : Seen) (name : String) : Option Schema :=
  match seen.complete.find? name with
  | some _ => some (.reference name)
  | none => (seen.pending.lookup name).map .reference

/-- What stands for a definition that was left out: the type itself, if it is complete. -/
def earlier? (seen : Seen) (name : String) : Option Schema :=
  match seen.pending.lookup name with
  | some name => some (.reference name)
  | none => seen.complete.find? name

end Seen

/-- A computation that meets types, or breaks a rule of the language. What it has met stays. -/
abbrev Validation :=
  EStateM AvroFault Seen

/-- A rule is broken. -/
def invalid : Validation α :=
  throw .invalid

/-- What there is; without it a rule is broken. -/
def Validation.ofOption : Option α → Validation α
  | some a => pure a
  | none => invalid

/-- A rule that has to hold. -/
def Validation.require (condition : Prop) [Decidable condition] : Validation Unit :=
  if condition then pure () else invalid

/-! ### Names -/

/-- The name of a type as it is written. -/
def requireTypeName (name : String) : Validation Unit :=
  if isTypeName name then pure () else throw (.malformedName name)

/-- The full name of a definition, and the namespace for what it holds. -/
def readName (space : Option String) (members : Members) :
    Validation (String × Option String) := do
  let name ← Validation.ofOption (text? members "name")
  requireTypeName name
  let own := someSpace
    (((namespaceOf? name).or (text? members "namespace")).or space)
  Validation.require (own.all isNamespace)
  return (qualify (localName name) own, own)

/-- The aliases of a definition, as full names. Unless all of them are strings there are
    none. -/
def readAliases (space : Option String) (members : Members) : Validation (List String) := do
  let written := ((Json.find? "aliases" members).bind Json.array?).bind (·.mapM Json.string?)
  let aliases := (written.getD []).map (qualify · space)
  aliases.forM requireTypeName
  return aliases.map (inSpace · space)

/-- A primitive type or a reference. -/
def readReference (space : Option String) (name : String) : Validation Schema :=
  match Schema.primitive? name with
  | some schema => pure schema
  | none => do
    Validation.require (isTypeName name)
    Validation.ofOption ((← get).refer? (inSpace name space))

/-- A definition without its content, if its kind is also the name of a type. -/
def standIn? (space : Option String) (kind content : String) (members : Members) :
    Validation (Option Schema) := do
  if (Json.find? content members).isSome then return none
  else return (← get).earlier? (inSpace kind space)

/-! ### Definitions -/

/-- A way to read the parts of a document within a namespace. -/
abbrev Reader :=
  Option String → Json → Validation Schema

/-- A field of a record. Its default has to fit what is complete by then. -/
def readField (read : Reader) (depth : Nat) (space : Option String) (members : Members) :
    Validation (String × Schema × Option Json) := do
  let name ← Validation.ofOption (text? members "name")
  Validation.require (isIdentifier name)
  let schema ← read space (.object members)
  match Json.find? "default" members with
  | none => return (name, schema, none)
  | some default =>
    MonadExcept.ofExcept (checkDefault (← get).complete depth schema default)
    return (name, schema, some default)

/-- The aliases of a field. -/
def fieldAliases (members : Members) : List String :=
  (((Json.find? "aliases" members).bind Json.array?).getD []).filterMap Json.string?

/-- No field has the name of an earlier field, or a name that an earlier one is also known
    by. Aliases themselves may meet any name before them. -/
def distinctFields (seen : List String) : List Members → Bool
  | [] => true
  | members :: rest =>
    match text? members "name" with
    | none => distinctFields seen rest
    | some name => name ∉ seen && distinctFields (name :: fieldAliases members ++ seen) rest

/-- A record definition. What is no object among its fields is passed over. -/
def readRecord (read : Reader) (depth : Nat) (space : Option String) (members : Members) :
    Validation Schema := do
  match ← standIn? space "record" "fields" members with
  | some schema => return schema
  | none =>
    let (name, own) ← readName space members
    let aliases ← readAliases own members
    modify (·.start name aliases)
    let items ← Validation.ofOption ((Json.find? "fields" members).bind Json.array?)
    let descriptions := items.filterMap Json.object?
    let fields ← descriptions.mapM (readField read depth own)
    Validation.require (distinctFields [] descriptions)
    let schema := Schema.record name fields
    modify (·.finish name aliases schema)
    return schema

/-- An enum definition. -/
def readEnum (space : Option String) (members : Members) : Validation Schema := do
  match ← standIn? space "enum" "symbols" members with
  | some schema => return schema
  | none =>
    let (name, own) ← readName space members
    let aliases ← readAliases own members
    let items ← Validation.ofOption ((Json.find? "symbols" members).bind Json.array?)
    let symbols ← Validation.ofOption (items.mapM Json.string?)
    Validation.require (symbols.all isIdentifier ∧ firstRepeated? [] symbols = none)
    let schema ←
      match Json.find? "default" members with
      | none => pure (Schema.enumeration name symbols none)
      | some value => do
        let symbol ← Validation.ofOption value.string?
        Validation.require (symbol ∈ symbols)
        pure (.enumeration name symbols symbol)
    modify (·.finish name aliases schema)
    return schema

/-- A definition of a type of some bytes. -/
def readFixed (space : Option String) (members : Members) : Validation Schema := do
  match ← standIn? space "fixed" "size" members with
  | some schema => return schema
  | none =>
    let size ← Validation.ofOption ((Json.find? "size" members).bind Json.nat?)
    let (name, own) ← readName space members
    let aliases ← readAliases own members
    let schema := Schema.fixed name size
    modify (·.finish name aliases schema)
    return schema

/-- A union: no union directly in it, and no two branches of a kind. -/
def readUnion (read : Reader) (space : Option String) (items : List Json) :
    Validation Schema := do
  let branches ← items.mapM (read space)
  let kinds := (branches.map Schema.kind).filter (· ≠ .named)
  Validation.require (.union ∉ kinds ∧ kinds.Nodup)
  return .union branches

/-! ### Objects -/

/-- The word that a type is written with, however many objects are around it. -/
def typeWord? : Json → Option String
  | .string word => some word
  | .object members => typeWordIn? members
  | _ => none
where
  /-- The word of the type of an object. -/
  typeWordIn? : Members → Option String
    | [] => none
    | (key, value) :: rest => if key = "type" then typeWord? value else typeWordIn? rest

/-- The type that a logical type stands on, which has to be of one of some kinds. -/
def readBase (read : Reader) (space : Option String) (belongs : Schema → Bool)
    (members : Members) : Validation Schema := do
  let type ← Validation.ofOption (Json.find? "type" members)
  let base ←
    match type with
    | .string "fixed" => readFixed space members
    | type => read space type
  if belongs base then return base
  else throw (.mismatch (← Validation.ofOption (typeWord? type)))

/-- The schema is some bytes or a fixed number of them. -/
def isBinary : Schema → Bool
  | .bytes | .fixed .. => true
  | _ => false

/-- The schema is a fixed number of bytes. -/
def isFixed : Schema → Bool
  | .fixed .. => true
  | _ => false

/-- A decimal. It has a positive precision, no less than its scale. -/
def readDecimal (read : Reader) (space : Option String) (members : Members) :
    Validation Schema := do
  let base ← readBase read space isBinary members
  let precision ← Validation.ofOption ((Json.find? "precision" members).bind Json.nat?)
  let scale ←
    match Json.find? "scale" members with
    | none => pure 0
    | some value => Validation.ofOption value.nat?
  Validation.require (1 ≤ precision ∧ scale ≤ precision)
  return .decimal precision scale base

/-- A duration. Its base has a size, which may be any. -/
def readDuration (read : Reader) (space : Option String) (members : Members) :
    Validation Schema := do
  let _ ← readBase read space isFixed members
  return .duration

/-- A logical type without parameters. It belongs to one primitive type. -/
def readLogical (read : Reader) (space : Option String) (type : Logical) (members : Members) :
    Validation Schema := do
  let belongs (base : Schema) : Bool :=
    (Schema.primitive? type.baseName).any (·.kind = base.kind)
  let _ ← readBase read space belongs members
  return .logical type

/-- A schema; if a logical type in it does not belong to its base, the type that the base is
    written with. -/
def orBase (space : Option String) (reading : Validation Schema) : Validation Schema :=
  tryCatch reading fun
    | .mismatch word => readReference space word
    | fault => throw fault

/-- An object whose type is a word. -/
def readKind (read : Reader) (depth : Nat) (space : Option String) (kind : String)
    (members : Members) : Validation Schema :=
  match kind with
  | "record" => readRecord read depth space members
  | "enum" => readEnum space members
  | "fixed" => readFixed space members
  | "array" => do
    return .array (← read space (← Validation.ofOption (Json.find? "items" members)))
  | "map" => do
    return .map (← read space (← Validation.ofOption (Json.find? "values" members)))
  | name => readReference space name

/-- An object without a logical type. -/
def readPlain (read : Reader) (depth : Nat) (space : Option String) (members : Members) :
    Validation Schema :=
  match Json.find? "type" members with
  | some (.string kind) => readKind read depth space kind members
  | some (.object nested) => read space (.object nested)
  | some (.array items) => readUnion read space items
  | _ => invalid

/-- An object: perhaps with a logical type, which has to be a word. Unknown words are passed
    over. -/
def readObject (read : Reader) (depth : Nat) (space : Option String) (members : Members) :
    Validation Schema :=
  match Json.find? "logicalType" members with
  | none => readPlain read depth space members
  | some (.string "decimal") => readDecimal read space members
  | some (.string "duration") => readDuration read space members
  | some (.string word) =>
    match Logical.ofName? word with
    | none => readPlain read depth space members
    | some .uuid => readLogical read space .uuid members
    | some type => orBase space (readLogical read space type members)
  | some _ => invalid

/-! ### Documents -/

/-- A schema, with the reading of its parts. -/
def readWith (read : Reader) (depth : Nat) (space : Option String) : Json → Validation Schema
  | .string name => readReference space name
  | .object members => readObject read depth space members
  | .array items => readUnion read space items
  | _ => invalid

/-- The schema of a document that nests no deeper than a bound. -/
def readAt (depth : Nat) : (bound : Nat) → Reader
  | 0 => readWith (fun _ _ => invalid) depth
  | bound + 1 => readWith (readAt depth bound) depth

/-- The schema of a document within a namespace. -/
def readSchema (space : Option String) (json : Json) : Validation Schema :=
  readAt json.depth json.depth space json

/-- The schema of a document. -/
def Schema.ofJson (json : Json) : Except AvroFault Schema :=
  match readSchema none json .empty with
  | .ok schema _ => .ok schema
  | .error fault _ => .error fault

end Avro

end Schemata
