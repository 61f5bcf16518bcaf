import Schemata.Registry.Building

/-!
# Drafts

A draft says what a type or a field is to be, before anything about it has
been checked. Building a draft of an enum or a struct registers it, and what
was registered stays when a later part of the draft turns out to be at fault.

## Main definitions

* `TypeDraft`, `FieldDraft`: What a type or a field is to be.
* `TypeDraft.build`, `FieldDraft.build`: Making it.
-/

namespace Schemata

/-- What a decimal type is to be. -/
inductive DecimalDraft where
  | int
  | long
  | integer (bits precision : Nat)
  | fraction (precision scale : Nat)
  | decimal (precision scale : Nat)
  deriving DecidableEq, Repr

/-- The decimal type of a draft. -/
def DecimalDraft.build : DecimalDraft → Except ConstructionFault DecimalType
  | .int => .ok .int
  | .long => .ok .long
  | .integer bits precision => DecimalType.integer bits precision
  | .fraction precision scale => DecimalType.fraction precision scale
  | .decimal precision scale => DecimalType.new precision scale

/-- What a struct is to be; its fields come later. -/
structure StructDraft where
  name : String
  aliases : List String
  documentation : Option String
  deriving DecidableEq, Repr

/-- The struct of a draft. -/
def StructDraft.build (draft : StructDraft) : Except ConstructionFault StructType :=
  StructType.new draft.name draft.aliases draft.documentation

/-- What an enum is to be. -/
structure EnumDraft where
  name : String
  aliases : List String
  documentation : Option String
  symbols : List String
  default : Option String
  deriving DecidableEq, Repr

/-- The enum of a draft. -/
def EnumDraft.build (draft : EnumDraft) : Except ConstructionFault EnumType :=
  EnumType.new draft.name draft.aliases draft.documentation draft.symbols draft.default

/-- What a type is to be. -/
inductive TypeDraft where
  | scalar (kind : ScalarKind)
  | decimal (draft : DecimalDraft)
  | struct (draft : StructDraft)
  | enumeration (draft : EnumDraft)
  /-- The type of the registry that carries a name. -/
  | reference (name : String)
  | unparsed (inner : TypeDraft)
  deriving DecidableEq, Repr

/-- What the default of a field is to be; a literal is still a text. -/
inductive DefaultDraft where
  | none
  | null
  | literal (text : String)
  deriving DecidableEq, Repr

/-- What a field is to be. What is left out is not set. -/
structure FieldDraft where
  name : String
  cardinality : Cardinality
  type : TypeDraft
  aliases : Option (List String)
  documentation : Option String
  default : Option DefaultDraft
  deriving DecidableEq, Repr

/-- Make a struct and register it. -/
def StructDraft.register (draft : StructDraft) : Building Handle := do
  let struct ← Building.ofConstruction draft.build
  return .struct (← Building.update (·.registerStruct struct))

/-- Make an enum and register it. -/
def EnumDraft.register (draft : EnumDraft) : Building Handle := do
  let enumeration ← Building.ofConstruction draft.build
  return .enumeration (← Building.update (·.registerEnum enumeration))

/-- The handle that a name stands for. -/
def Building.lookup (name : String) : Building Handle := do
  MonadExcept.ofExcept ((← get).get name)

/-- The type of a draft. -/
def TypeDraft.build : TypeDraft → Building Ty
  | .scalar kind => pure (.scalar kind)
  | .decimal draft => return .decimal (← Building.ofConstruction draft.build)
  | .struct draft => return .named (← draft.register)
  | .enumeration draft => return .named (← draft.register)
  | .reference name => return .named (← Building.lookup name)
  | .unparsed inner => return .unparsed (← inner.build)

/-- The default of a draft. -/
def DefaultDraft.build : DefaultDraft → Except SchemaError Default
  | .none => .ok .none
  | .null => .ok .null
  | .literal text => ((Json.read text).map .literal).mapError .json

/-- The field of a draft: the type is made first, then the field, and then aliases,
    documentation and default are set in this order. -/
def FieldDraft.build (draft : FieldDraft) : Building Field := do
  let field := Field.new draft.name draft.cardinality (← draft.type.build)
  let field ←
    match draft.aliases with
    | some aliases => Building.ofConstruction (field.withAliases aliases)
    | none => pure field
  let field :=
    match draft.documentation with
    | some text => field.withDocumentation text
    | none => field
  match draft.default with
  | none => return field
  | some default =>
    match default.build with
    | .ok default => Building.ofConstruction (field.withDefault default)
    | .error e => throw e

end Schemata
