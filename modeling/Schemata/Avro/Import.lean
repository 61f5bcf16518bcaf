import Schemata.Registry.Building

/-!
# Importing Avro Schemas

From a schema document to types in a registry. Records become structs, enums
enums, primitives and logical types scalars and decimals, and a union with
null becomes an optional field. Some documents say the same thing in several
ways, and these are brought to one form:

* a union of one branch is that branch;
* an optional list is a repeated field, an absent list being an empty one;
* list items that may be null are plain items;
* a logical type without a counterpart is its primitive.

What a field says about its cardinality is settled first, by looking at the
document alone (`FieldForm`); only the type that remains is imported. A
record is registered before its fields, so that they can refer to it.

An import that fails may have registered types by then. They are rolled back,
so the registry is as it was.

## Main definitions

* `FieldForm`, `fieldForm`: What a field's schema and default come to.
* `importType`: The type of a document within a namespace.
* `Registry.importSchema`: Import with rollback.
* `fromSchema`: Import into a registry of its own.
-/

namespace Schemata

/-! ### Reading attributes -/

namespace Avro

/-- The members of a schema object. -/
abbrev Members :=
  List (String × Json)

/-- The text of an attribute; anything but a string is as good as nothing. -/
def text? (members : Members) (key : String) : Option String :=
  (Json.find? key members).bind Json.string?

/-- The strings of a list, or the first item that is none. -/
def stringItems (key : String) : List Json → Except ShapeFault (List String)
  | [] => .ok []
  | .string value :: rest => (stringItems key rest).map (value :: ·)
  | item :: _ => .error (.notAString key item)

/-- The strings of an attribute; without it there are none. -/
def strings (members : Members) (key : String) : Except ShapeFault (List String) :=
  match Json.find? key members with
  | none => .ok []
  | some (.array items) => stringItems key items
  | some value => .error (.notAList key value)

/-- The first number that an attribute cannot have any more. -/
def numberLimit : Nat :=
  0x100000000

/-- The number of an attribute, if there is one. -/
def number? (members : Members) (key : String) : Except ShapeFault (Option Nat) :=
  match Json.find? key members with
  | none => .ok none
  | some value =>
    match value.nat? with
    | some n => if n < numberLimit then .ok (some n) else .error (.notANumber key value)
    | none => .error (.notANumber key value)

/-- The document is the null type. -/
def isNull : Json → Bool
  | .string name => name == "null"
  | .object members => text? members "type" == some "null"
  | _ => false

/-- The items of a list type, if the document is one. -/
def arrayItems? : Json → Option Json
  | .object members =>
    if text? members "type" = some "array" then Json.find? "items" members else none
  | _ => none

/-- The branch of a union that is not null, and whether there is null beside it. -/
def splitUnion (branches : List Json) : Except ShapeFault (Json × Bool) :=
  let nulls := (branches.filter isNull).length
  match branches.filter (!isNull ·) with
  | [] => .error .noBranch
  | [branch] => if nulls ≤ 1 then .ok (branch, nulls = 1) else .error .manyNulls
  | others => if nulls ≤ 1 then .error (.manyBranches others.length) else .error .manyNulls

/-! ### Fields -/

/-- What a field's schema and default come to. -/
structure FieldForm where
  cardinality : Cardinality
  /-- The document of the type of one value. -/
  type : Json
  default : Default
  deriving Repr

/-- The document of the type of one item. -/
def itemForm (field : String) (items : Json) : Except ShapeFault Json := do
  let item ← match items with
    | .array branches => (splitUnion branches).map (·.1)
    | items => .ok items
  if (arrayItems? item).isSome then .error (.nestedArray field) else .ok item

/-- A field whose value may not be missing. -/
def plainForm (field : String) (schema : Json) (default : Option Json) :
    Except ShapeFault FieldForm :=
  match arrayItems? schema with
  | some items => do
    return ⟨.repeated, ← itemForm field items, default.elim .emptyList .literal⟩
  | none => .ok ⟨.required, schema, default.elim .none .literal⟩

/-- A field whose value may be null. An absent list is an empty one. -/
def nullableForm (field : String) (branch : Json) (default : Option Json) :
    Except ShapeFault FieldForm :=
  match arrayItems? branch with
  | some items => do
    let default :=
      match default with
      | none | some .null => .emptyList
      | some value => .literal value
    return ⟨.repeated, ← itemForm field items, default⟩
  | none => .ok ⟨.optional, branch, default.elim .none .ofLiteral⟩

/-- What a field's schema and default come to. -/
def fieldForm (field : String) (default : Option Json) : Json → Except ShapeFault FieldForm
  -- A union of one branch is that branch.
  | .array [branch] =>
    if isNull branch then .error .noBranch else fieldForm field default branch
  | .array branches => do
    let (branch, _) ← splitUnion branches
    nullableForm field branch default
  | schema => plainForm field schema default

/-! ### Types -/

/-- The type of a primitive name. -/
def primitive? (name : String) : Option Ty :=
  match name with
  | "boolean" => some (.scalar .boolean)
  | "bytes" => some (.scalar .binaryHex)
  | "double" => some (.scalar .double)
  | "float" => some (.scalar .float)
  | "string" => some (.scalar .string)
  | "int" => some (.decimal .int)
  | "long" => some (.decimal .long)
  | _ => none

/-- The handle that a reference stands for: first within the namespace, then as it is
    written. -/
def resolve (r : Registry) (name : String) (space : Option String) : Except SchemaError Handle :=
  match r.find? (qualify name space) with
  | some handle => .ok handle
  | none => r.get name

/-- A primitive type or a reference. -/
def importName (space : Option String) (name : String) : Building Ty :=
  match primitive? name with
  | some type => pure type
  | none =>
    if name = "null" then throw (.shape .bareNull)
    else do
      return .named (← MonadExcept.ofExcept (resolve (← get) name space))

/-- The decimal type of an object's attributes. -/
def importDecimal (members : Members) : Building Ty := do
  let precision ← Building.ofShape (number? members "precision")
  match precision with
  | none => throw (.shape .noPrecision)
  | some precision => do
    let scale ← Building.ofShape (number? members "scale")
    return .decimal (← Building.ofConstruction (DecimalType.new precision (scale.getD 0)))

/-- The scalar type of a primitive and a logical type. -/
def logical? (primitive logical : String) : Option ScalarKind :=
  match primitive, logical with
  | "int", "date" => some .date
  | "int", "time-millis" => some .time
  | "long", "time-micros" => some .timeMicros
  | "long", "timestamp-millis" => some .dateTime
  | "long", "timestamp-micros" => some .dateTimeMicros
  | _, _ => none

/-- A primitive type or a reference, perhaps with a logical type. -/
def importLogical (space : Option String) (name : String) (members : Members) : Building Ty :=
  match text? members "logicalType" with
  | none => importName space name
  | some logical =>
    if name = "bytes" ∧ logical = "decimal" then importDecimal members
    else
      match logical? name logical with
      | some kind => pure (.scalar kind)
      -- A logical type that does not belong to its primitive is overlooked.
      | none => importName space name

/-- The namespace of a definition whose name has no dot. -/
def definitionSpace (members : Members) (enclosing : Option String) : Option String :=
  let space :=
    match Json.find? "namespace" members with
    | some explicit => explicit.string?
    | none => enclosing
  space.filter (· ≠ "")

/-- The full name of a definition, and the namespace for what it holds. -/
def fullName (members : Members) (enclosing : Option String) :
    Except ShapeFault (String × Option String) :=
  match text? members "name" with
  | none => .error .unnamed
  | some name =>
    match namespaceOf? name with
    | some space => .ok (name, some space)
    | none =>
      let space := definitionSpace members enclosing
      .ok (qualify name space, space)

/-- The aliases of a definition, within its namespace. -/
def aliases (members : Members) (space : Option String) : Except ShapeFault (List String) :=
  (strings members "aliases").map (·.map (qualify · space))

/-- An enum definition. -/
def importEnum (enclosing : Option String) (members : Members) : Building Ty := do
  let (name, space) ← Building.ofShape (fullName members enclosing)
  let aliases ← Building.ofShape (aliases members space)
  let symbols ← Building.ofShape (strings members "symbols")
  let enumeration ← Building.ofConstruction
    (EnumType.new name aliases (text? members "doc") symbols (text? members "default"))
  return .named (.enumeration (← Building.update (·.registerEnum enumeration)))

/-- A field, with the import of its type. -/
def importField (importType : Option String → Json → Building Ty) (space : Option String)
    (field : Json) : Building Field :=
  match field with
  | .object members => do
    match text? members "name" with
    | none => throw (.shape .unnamedField)
    | some name =>
      match Json.find? "type" members with
      | none => throw (.shape (.untypedField name))
      | some schema => do
        let form ← Building.ofShape (fieldForm name (Json.find? "default" members) schema)
        let type ← importType space form.type
        let aliases ← Building.ofShape (strings members "aliases")
        let field ← Building.ofConstruction
          ((Field.new name form.cardinality type).withAliases aliases)
        let field ← Building.ofConstruction (field.withDefault form.default)
        return field.withDocumentation (text? members "doc")
  | json => throw (.shape (.notAField json))

/-- The fields of a record, in order. -/
def importFields (importType : Option String → Json → Building Ty) (space : Option String) :
    List Json → Building (List Field)
  | [] => pure []
  | json :: rest => do
    let field ← importField importType space json
    let fields ← importFields importType space rest
    return field :: fields

/-- A record definition. It is registered first, and takes in its fields last. -/
def importRecord (importType : Option String → Json → Building Ty) (enclosing : Option String)
    (members : Members) : Building Ty := do
  let (name, space) ← Building.ofShape (fullName members enclosing)
  let aliases ← Building.ofShape (aliases members space)
  match (Json.find? "fields" members).bind Json.array? with
  | none => throw (.shape (.noFieldList name))
  | some items => do
    let struct ← Building.ofConstruction (StructType.new name aliases (text? members "doc"))
    -- From here on the fields can refer to the record.
    let index ← Building.update (·.registerStruct struct)
    let fields ← importFields importType space items
    Building.update fun r => do return (← r.setFields index fields, ())
    return .named (.struct index)

/-- An object: a definition, a primitive or reference, or a wrapped type. -/
def importObject (importType : Option String → Json → Building Ty) (space : Option String)
    (members : Members) : Building Ty :=
  match Json.find? "type" members with
  | some (.string kind) =>
    -- The words for definitions come before any type that has one of them as its name.
    if kind = "record" ∨ kind = "error" then importRecord importType space members
    else if kind = "enum" then importEnum space members
    else if kind = "fixed" then throw (.shape .fixed)
    else if kind = "map" then throw (.shape .map)
    else if kind = "array" then throw (.shape .arrayOutsideField)
    else importLogical space kind members
  | some (.object nested) => importType space (.object nested)
  | some (.array nested) => importType space (.array nested)
  | _ => throw (.shape (.noType (.object members)))

/-- A type, with the import of the types within it. -/
def importTypeWith (importType : Option String → Json → Building Ty) (space : Option String)
    (schema : Json) : Building Ty :=
  match schema with
  | .string name => importName space name
  | .object members => importObject importType space members
  | .array _ => throw (.shape .unionOutsideField)
  | json => throw (.shape (.notASchema json))

/-- The type of a document that nests no deeper than `depth`. -/
def importTypeAt : (depth : Nat) → Option String → Json → Building Ty
  | 0 => importTypeWith fun _ json => throw (.shape (.notASchema json))
  | depth + 1 => importTypeWith (importTypeAt depth)

/-- The type of a document within a namespace. -/
def importType (space : Option String) (schema : Json) : Building Ty :=
  importTypeAt schema.depth space schema

end Avro

/-- Import a document. If it fails, the types it registered are dropped. -/
def Registry.importSchema (r : Registry) (schema : Json) :
    EStateM.Result SchemaError Registry Ty :=
  match Avro.importType none schema r with
  | .ok type r' => .ok type r'
  | .error e r' => .error e (r'.rollback r.checkpoint)

/-- Import a document into a registry of its own. -/
def fromSchema (token : Nat) (schema : Json) : Except SchemaError (Registry × Ty) :=
  match (Registry.new token).importSchema schema with
  | .ok type r => .ok (r, type)
  | .error e _ => .error e

end Schemata
