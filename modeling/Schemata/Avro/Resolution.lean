import Schemata.Avro.Canonical
import Schemata.Avro.Datum
import Schemata.Avro.Identifier

/-!
# Resolving Data

What becomes of a datum when a schema asks for its type, or that the datum
does not fit. The default of a field has to fit the type of the field.

References are looked up among the types that are complete, so a default
cannot be a value of the record it is written in. The name of a reference
counts within the namespace that is followed on the way to it.

A union gives a datum to its branch of the same kind. If it has none, its
branches are tried in order, each with the definitions in it and in the
branches before it; the first that takes the datum has to take it once more
without them. A branch that is tried must not define a name twice or refer to
a type that is not known, which is a fatal fault.

## Main definitions

* `Environment`: The types that references lead to.
* `Datum.resolve`: What becomes of a datum.
* `checkDefault`: A document can be the default of a field.
-/

namespace Schemata

namespace Avro

/-- Types by full name, the latest first. -/
abbrev Environment :=
  List (String × Schema)

/-- The type of a full name. -/
def Environment.find? (environment : Environment) (name : String) : Option Schema :=
  List.lookup name environment

/-- What becomes of a datum; the fault that is not fatal says that it does not fit. -/
abbrev Resolving (α : Type) :=
  Except AvroFault α

/-- The datum does not fit. -/
def misfit : Resolving α :=
  .error .invalid

/-- Whether the datum fits. Only fatal faults remain. -/
def fits : Resolving α → Resolving Bool
  | .ok _ => .ok true
  | .error fault => if fault.isFatal then .error fault else .ok false

/-! ### Leaves -/

/-- The text is a UUID: 32 hexadecimal digits, plain or in groups of 8, 4, 4, 4 and 12 with
    hyphens between them, in braces, or behind the URN mark. Letters may be of either
    case. -/
def isUuid (text : String) : Bool :=
  let isHex (c : Char) : Bool :=
    c.isDigit || ('a' ≤ c && c ≤ 'f') || ('A' ≤ c && c ≤ 'F')
  let isPlain (cs : List Char) : Bool := cs.length == 32 && cs.all isHex
  let isGrouped (cs : List Char) : Bool :=
    (cs.splitOn '-').map List.length == [8, 4, 4, 4, 12] && (cs.filter (· ≠ '-')).all isHex
  let cs := text.toList
  let urn := "urn:uuid:".toList
  isPlain cs || isGrouped cs ||
    (cs.head? == some '\x7b' && cs.getLast? == some '\x7d' &&
      isGrouped ((cs.drop 1).dropLast)) ||
    ((cs.take urn.length).map Char.toLower == urn && isGrouped (cs.drop urn.length))

/-- The integer of the low 32 bits. -/
def low32 (n : Int) : Int :=
  n.bmod 0x100000000

/-- The byte that a datum says. -/
def byte? (datum : Datum) : Option UInt8 :=
  let number :=
    match datum.unwrap with
    | .int n => some n
    | .long n => some (low32 n)
    | _ => none
  number.bind fun n => if 0 ≤ n ∧ n < 256 then some (UInt8.ofNat n.toNat) else none

/-- The number of decimal digits that always fit into some bytes with a sign. From 129 bytes
    on no limit is known. -/
def digitsOfBytes (size : Nat) : Option Nat :=
  if size = 0 then some 0
  else if size ≤ 128 then some ((Nat.toDigits 10 (Nat.pow 2 (8 * size - 1) - 1)).length - 1)
  else none

/-- The first size that no number of digits is told for. -/
def sizeLimit : Nat :=
  0x80000000

/-- The first size with more bits than can be counted. -/
def bitLimit : Nat :=
  0x10000000

/-- Some bytes have to have room for a precision. That the bits cannot be counted is fatal. -/
def requireRoom (size precision : Nat) : Resolving Unit :=
  if sizeLimit ≤ size then misfit
  else if bitLimit ≤ size then .error (.tooLarge size)
  else if (digitsOfBytes size).all (precision ≤ ·) then .ok ()
  else misfit

/-- A decimal. Its base and its bytes have to have room for its precision; the base is looked
    at first. -/
def resolveDecimal (precision : Nat) (base : Schema) (datum : Datum) : Resolving Datum := do
  -- Only a base of fixed size is looked at by itself.
  match base with
  | .fixed _ size => requireRoom size precision
  | _ => pure ()
  match datum with
  | .decimal size =>
    requireRoom size precision
    return .decimal size
  | .bytes content | .fixed content =>
    requireRoom content.length precision
    return .decimal content.length
  | _ => misfit

/-- A symbol of an enum. An unknown one gives way to the default of the enum. -/
def resolveSymbol (symbols : List String) (default : Option String) : Datum → Resolving Datum
  | .string symbol | .enumeration symbol =>
    if symbol ∈ symbols then .ok (.enumeration symbol)
    else
      match default with
      | some symbol => .ok (.enumeration symbol)
      | none => misfit
  | _ => misfit

/-- A logical type without parameters. -/
def resolveLogical (type : Logical) (datum : Datum) : Resolving Datum :=
  match type, datum with
  | .uuid, .string text => if isUuid text then .ok (.logical .uuid) else misfit
  | .uuid, .int _ | .uuid, .long _ => misfit
  | type, .int _ => .ok (.logical type)
  -- Values of 64 bits are too wide for these two.
  | .date, .long _ | .timeMillis, .long _ => misfit
  | type, .long _ => .ok (.logical type)
  | type, .logical own => if own = type then .ok (.logical type) else misfit
  | _, _ => misfit

/-- Some bytes. -/
def resolveBytes : Datum → Resolving Datum
  | .bytes content => .ok (.bytes content)
  | .string text => .ok (.bytes (Text.utf8 text))
  | .array items =>
    match items.mapM byte? with
    | some content => .ok (.bytes content)
    | none => misfit
  | _ => misfit

/-- A text. -/
def resolveString : Datum → Resolving Datum
  | .string text => .ok (.string text)
  | .bytes content | .fixed content =>
    match String.fromUTF8? ⟨content.toArray⟩ with
    | some text => .ok (.string text)
    | none => misfit
  | _ => misfit

/-- A fixed number of bytes. A text may have any other number of them. -/
def resolveFixed (size : Nat) : Datum → Resolving Datum
  | .string text => .ok (.fixed (Text.utf8 text))
  | .fixed content => if content.length = size then .ok (.fixed content) else misfit
  | _ => misfit

/-- A datum for a schema without parts. -/
def resolveLeaf (schema : Schema) (datum : Datum) : Resolving Datum :=
  match schema, datum with
  | .null, .null => .ok .null
  | .boolean, .boolean => .ok .boolean
  | .int, .int n => .ok (.int n)
  | .int, .long n => .ok (.int (low32 n))
  | .long, .int n | .long, .long n => .ok (.long n)
  | .float, .int _ | .float, .long _ | .float, .float | .float, .double => .ok .float
  | .double, .int _ | .double, .long _ | .double, .float | .double, .double => .ok .double
  | .bytes, datum => resolveBytes datum
  | .string, datum => resolveString datum
  | .fixed _ size, datum => resolveFixed size datum
  | .enumeration _ symbols default, datum => resolveSymbol symbols default datum
  | .decimal precision _ base, datum => resolveDecimal precision base datum
  | .duration, .duration => .ok .duration
  | .duration, .fixed content => if content.length = 12 then .ok .duration else misfit
  | .logical type, datum => resolveLogical type datum
  | _, _ => misfit

/-! ### Branches -/

/-- The namespace of a schema that has a name or is one. -/
def Schema.space? : Schema → Option String
  | .record name _ | .enumeration name .. | .fixed name _ | .reference name =>
    namespaceOf? name
  | _ => none

/-- One more definition, under a name that is new. -/
def define (name : String) (schema : Schema) (found : Environment) : Resolving Environment :=
  match found.find? name with
  | none => .ok ((name, schema) :: found)
  | some _ => .error (.repeatedDefinition name)

mutual

/-- The definitions in a schema added to those that are found, with what else is known. -/
def definitions (known : Environment) (space : Option String) (found : Environment) :
    Schema → Resolving Environment
  | .array items => definitions known space found items
  | .map values => definitions known space found values
  | .union branches => definitionsInBranches known space found branches
  | .record name fields => do
    let name := inSpace name space
    let found ← define name (.record name fields) found
    definitionsInFields known (namespaceOf? name) found fields
  | .enumeration name symbols default =>
    define (inSpace name space) (.enumeration name symbols default) found
  | .fixed name size => define (inSpace name space) (.fixed name size) found
  | .reference name =>
    let name := inSpace name space
    if ((found.find? name).or (known.find? name)).isSome then .ok found
    else .error (.unknownReference name)
  | _ => .ok found

/-- The definitions in the branches of a union. -/
def definitionsInBranches (known : Environment) (space : Option String) (found : Environment) :
    List Schema → Resolving Environment
  | [] => .ok found
  | branch :: rest => do
    definitionsInBranches known space (← definitions known space found branch) rest

/-- The definitions in the fields of a record. -/
def definitionsInFields (known : Environment) (space : Option String) (found : Environment) :
    List (String × Schema × Option Json) → Resolving Environment
  | [] => .ok found
  | (_, schema, _) :: rest => do
    definitionsInFields known space (← definitions known space found schema) rest

end

/-- A way to resolve the parts of a datum, within a namespace. -/
abbrev Resolver :=
  Environment → Option String → Schema → Datum → Resolving Datum

/-- The first branch that takes a datum, each tried with the definitions so far. -/
def chooseBranch (go : Resolver) (space : Option String) (datum : Datum) :
    Environment → List Schema → Resolving Schema
  | _, [] => misfit
  | known, branch :: rest => do
    -- Each branch adds its definitions for those behind it.
    let known := (← definitions known space [] branch) ++ known
    if ← fits (go known (branch.space?.or space) branch datum) then return branch
    else chooseBranch go space datum known rest

/-- The branch that a datum goes to. -/
def branchFor (go : Resolver) (names : Environment) (space : Option String)
    (branches : List Schema) (datum : Datum) : Resolving Schema :=
  -- A branch without a name is found by its kind alone.
  match branches.find? fun branch => branch.kind ≠ .named ∧ branch.kind = datum.kind with
  | some branch => .ok branch
  | none => chooseBranch go space datum names branches

/-! ### Parts -/

/-- What a missing field of a record is given. Where the field is a union its default counts
    for the first branch. -/
def defaultOf (go : Schema → Datum → Resolving Datum) (schema : Schema) (default : Json) :
    Resolving Datum :=
  match schema with
  | .enumeration _ symbols fallback => resolveSymbol symbols fallback (.ofJson default)
  | .union (.null :: _) => .ok (.union .null)
  | .union (first :: _) => return .union (← go first (.ofJson default))
  | _ => .ok (.ofJson default)

/-- The fields of a record, from the members of a map or the fields of another record. -/
def resolveFields (go : Schema → Datum → Resolving Datum) (members : List (String × Datum)) :
    List (String × Schema × Option Json) → Resolving (List (String × Datum))
  | [] => .ok []
  | (name, schema, default) :: rest => do
    let datum ←
      match members.lookup name, default with
      | some datum, _ => .ok datum
      | none, some default => defaultOf go schema default
      | none, none => misfit
    let datum ← go schema datum
    return (name, datum) :: (← resolveFields go members rest)

/-- A datum for a schema, with the resolving of its parts. -/
def resolveWith (go : Resolver) (names : Environment) (space : Option String)
    (schema : Schema) (datum : Datum) : Resolving Datum :=
  match schema, datum.unwrap with
  | .union branches, datum => do
    let branch ← branchFor go names space branches datum
    return .union (← go names space branch datum)
  | .reference name, datum =>
    let name := inSpace name space
    match names.find? name with
    | some schema => go names (namespaceOf? name) schema datum
    | none => misfit
  | .array schema, .array items => return .array (← items.mapM (go names space schema))
  | .map schema, .map members =>
    return .map (← members.mapM fun (key, datum) => return (key, ← go names space schema datum))
  | .record _ fields, .map members | .record _ fields, .record members =>
    return .record (← resolveFields (go names space) members fields)
  | schema, datum => resolveLeaf schema datum

/-- What becomes of a datum by no more than `fuel` steps. -/
def resolveAt : (fuel : Nat) → Resolver
  | 0 => fun _ _ _ _ => .error .endlessDefault
  | fuel + 1 => resolveWith (resolveAt fuel)

/-- Steps enough for a document nested to a depth: a few for each level of the datum and of
    every default that it leads to, and defaults lead to complete types only. -/
def stepBound (names : Environment) (depth : Nat) : Nat :=
  8 * (depth + 2) * (names.length + 2)

/-- What becomes of a datum, among schemas nested no deeper than `depth`. -/
def Datum.resolve (names : Environment) (depth : Nat) (space : Option String) (schema : Schema)
    (datum : Datum) : Resolving Datum :=
  resolveAt (stepBound names depth) names space schema datum

/-! ### Defaults -/

/-- One of the branches takes a datum. -/
def anyFits (names : Environment) (depth : Nat) (datum : Datum) :
    List Schema → Resolving Bool
  | [] => .ok false
  | branch :: rest => do
    if ← fits (Datum.resolve names depth branch.space? branch datum) then return true
    else anyFits names depth datum rest

/-- A document can be the default of a field: any branch of a union may take it. Another type
    that does not take it is reported by its canonical form. -/
def checkDefault (names : Environment) (depth : Nat) (schema : Schema) (default : Json) :
    Resolving Unit := do
  let datum := Datum.ofJson default
  match schema with
  | .union branches => if ← anyFits names depth datum branches then return () else misfit
  | schema =>
    if ← fits (Datum.resolve names depth schema.space? schema datum) then return ()
    else
      let _ ← schema.canonicalForm
      misfit

end Avro

end Schemata
