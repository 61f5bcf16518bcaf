import Schemata.Registry.Basic

/-!
# Outlines

Types as indented text. A struct shows its names, its documentation and its
fields in the order of their names; where it is met again it shows only its
names, which keeps shared and recursive types finite.

An outline is a list of lines with levels. Indentation and the lead in front
of every line are added at the end, so nothing in the walk depends on them.

## Main definitions

* `Line`: A text at a level.
* `Registry.outline`: The lines of a type.
* `Registry.render`, `Registry.render?`: The text of a type, and whether there is one.
* `Registry.display`: The text of a type as it is shown in messages.
-/

namespace Schemata

/-- A line of an outline. -/
structure Line where
  level : Nat
  text : String
  deriving DecidableEq, Repr

/-- The line with a lead and with its level in blanks. -/
def Line.render (lead : String) (indent : Nat) (line : Line) : String :=
  lead ++ String.ofList (List.replicate (indent * line.level) ' ') ++ line.text

namespace Outline

/-- The structs whose fields are shown already. -/
abbrev Shown :=
  List Nat

/-- The fields in the order of their names. -/
def sortFields (fields : List Field) : List Field :=
  fields.mergeSort fun a b => a.name ≤ b.name

/-- The names of a field, behind its first name the mark of its cardinality. -/
def fieldHeader (field : Field) : String :=
  String.intercalate ", "
    ((field.name ++ field.cardinality.suffix) :: field.names.aliases.toList)

/-- The names of a struct. -/
def structHeader (struct : StructType) : String :=
  "StructType(" ++ String.intercalate ", " struct.names.all ++ ")"

/-- The line of some documentation. -/
def docLine (level : Nat) (documentation : Option String) : List Line :=
  documentation.toList.map fun text => ⟨level, "Doc: " ++ text⟩

/-- The line of a default. -/
def defaultLine (level : Nat) (default : Default) : List Line :=
  if default.isPresent then [⟨level, "Default: " ++ default.text⟩] else []

/-- The lines of fields, with the lines of their types. -/
def fieldLines (typeLines : Shown → Nat → Ty → List Line × Shown) (level : Nat) :
    Shown → List Field → List Line × Shown
  | shown, [] => ([], shown)
  | shown, field :: rest =>
    let (type, shown) := typeLines shown (level + 1) field.type
    let (fields, shown) := fieldLines typeLines level shown rest
    (Line.mk level (fieldHeader field) :: docLine (level + 1) field.documentation ++
      defaultLine (level + 1) field.default ++ type ++ fields, shown)

/-- The lines of a struct, with the lines of its fields' types. -/
def structLines (r : Registry) (typeLines : Shown → Nat → Ty → List Line × Shown)
    (shown : Shown) (level : Nat) (mark : String) (index : Nat) : List Line × Shown :=
  let struct := r.struct index
  let header := mark ++ structHeader struct
  -- The body is shown where the struct is first met, which may be further out.
  if index ∈ shown then ([⟨level, header⟩], shown)
  else
    let (body, shown) : List Line × Shown :=
      match struct.fields with
      | none => ([⟨level + 1, "(no fields yet)"⟩], index :: shown)
      | some fields => fieldLines typeLines (level + 1) (index :: shown) (sortFields fields)
    (Line.mk level (header ++ " \x7b") :: docLine (level + 1) struct.documentation ++ body ++
      [Line.mk level "\x7d"], shown)

/-- The mark of unparsed content, once for each layer. -/
def unparsedMark (layers : Nat) : String :=
  String.join (List.replicate layers "(unparsed) ")

/-- The lines of a type, with the lines of the types within it. -/
def typeLinesWith (r : Registry) (typeLines : Shown → Nat → Ty → List Line × Shown)
    (shown : Shown) (level : Nat) (type : Ty) : List Line × Shown :=
  let mark := unparsedMark type.layers
  match type.core with
  | .scalar kind => ([⟨level, mark ++ kind.name⟩], shown)
  | .decimal type => ([⟨level, mark ++ type.name⟩], shown)
  | .named (.enumeration index) => ([⟨level, mark ++ (r.enumeration index).text⟩], shown)
  | .named (.struct index) => structLines r typeLines shown level mark index
  | .unparsed _ => ([], shown)

/-- The lines of a type; bodies of structs may nest to a depth. -/
def typeLinesAt (r : Registry) : (depth : Nat) → Shown → Nat → Ty → List Line × Shown
  | 0 => typeLinesWith r fun shown _ _ => ([], shown)
  | depth + 1 => typeLinesWith r (typeLinesAt r depth)

end Outline

namespace Registry

/-- The lines of a type. No struct shows its fields within itself, so the number of structs
    bounds how deep bodies nest. -/
def outline (r : Registry) (type : Ty) : List Line :=
  (Outline.typeLinesAt r r.structs.length [] 0 type).1

/-- The text of a type, with a lead in front of every line. -/
def render (r : Registry) (indent : Nat) (lead : String) (type : Ty) : String :=
  String.intercalate "\n" ((r.outline type).map (·.render lead indent))

/-- The greatest number of blanks that a line can start with. -/
def widest : Nat :=
  0x7fffffffffffffff

/-- The text of a type, unless it has a body and the body is too far in. The blanks of a body
    are made when it begins, even if no line in it needs them. -/
def render? (r : Registry) (indent : Nat) (lead : String) (type : Ty) : Option String :=
  if widest < indent ∧ type.struct?.isSome then none
  else some (r.render indent lead type)

/-- The indentation of a level where none is asked for. -/
def usualIndent : Nat :=
  2

/-- The text of a type with the usual indentation. -/
def display (r : Registry) (type : Ty) : String :=
  r.render usualIndent "" type

end Registry

end Schemata
