import Schemata.Avro.Import
import Schemata.Draft
import Schemata.Entries
import Schemata.LineDiff
import Schemata.Outline

/-!
# Workspaces

Several registries side by side, each under a label, with fields that no
struct has taken in yet and with outlines kept for comparison.

Every new registry gets a token of its own. A copy keeps the token of its
model, so a struct and its copy are not told apart by the stamps of their
fields.

## Main definitions

* `Workspace`: Labelled registries, loose fields and kept outlines.
* `Working`: A computation on a workspace that may fail; what it did before stays.
* `Workspace.create`, `Working.copy`: New registries and copies.
* `Working.inside`: A computation on one of the registries.
* `FieldSource`: A field to be made, or a copy of one that exists.
-/

namespace Schemata

/-- Labelled registries, loose fields and kept outlines. -/
structure Workspace where
  /-- The token of the next new registry. -/
  nextToken : Nat
  registries : List (String × Registry)
  fields : List (String × Field)
  outlines : List (String × String)
  deriving Repr

namespace Workspace

/-- A workspace with nothing in it. -/
def empty : Workspace :=
  ⟨0, [], [], []⟩

/-- Put a new registry under a label. -/
def create (w : Workspace) (label : String) : Workspace :=
  { w with
    nextToken := w.nextToken + 1
    registries := Entries.put label (.new w.nextToken) w.registries }

/-- Put a registry under a label. -/
def put (w : Workspace) (label : String) (r : Registry) : Workspace :=
  { w with registries := Entries.put label r w.registries }

/-- The registry under a label. A label that was not used before gets a new one. -/
def visit (w : Workspace) (label : String) : Workspace × Registry :=
  match w.registries.lookup label with
  | some r => (w, r)
  | none => (w.create label, .new w.nextToken)

/-- Put a field under a label. -/
def keepField (w : Workspace) (label : String) (field : Field) : Workspace :=
  { w with fields := Entries.put label field w.fields }

/-- Keep an outline under a label. -/
def keepOutline (w : Workspace) (label text : String) : Workspace :=
  { w with outlines := Entries.put label text w.outlines }

/-- The kept outline of a label; without one it is empty. -/
def keptOutline (w : Workspace) (label : String) : String :=
  (w.outlines.lookup label).getD ""

end Workspace

/-- A computation on a workspace that may fail; what it did before stays. -/
abbrev Working :=
  EStateM SchemaError Workspace

namespace Working

/-- The registry under a label. -/
def registry (label : String) : Working Registry := do
  let (w, r) := (← get).visit label
  set w
  return r

/-- A result, or the end of the computation. -/
def of (result : Except SchemaError α) : Working α :=
  MonadExcept.ofExcept result

/-- A computation on the registry under a label. -/
def inside (label : String) (building : Building α) : Working α := do
  match building (← registry label) with
  | .ok a r => modify (·.put label r); return a
  | .error e r => modify (·.put label r); throw e

/-- A registration of what a draft describes. A draft at fault leaves the label unused. -/
def declare (label : String) (draft : Except ConstructionFault α) (register : Building Handle) :
    Working Handle := do
  match draft with
  | .ok _ => inside label register
  | .error fault => throw (.construction fault)

/-- A new struct of the registry under a label. -/
def declareStruct (label : String) (draft : StructDraft) : Working Handle :=
  declare label draft.build draft.register

/-- A new enum of the registry under a label. -/
def declareEnum (label : String) (draft : EnumDraft) : Working Handle :=
  declare label draft.build draft.register

/-- An edit of the registry under a label. -/
def update (label : String) (edit : Registry → Except SchemaError Registry) : Working Unit := do
  let r ← of (edit (← registry label))
  modify (·.put label r)

/-- Put a copy of a registry under another label. -/
def copy (source target : String) : Working Unit := do
  let r ← registry source
  modify (·.put target r)

/-- The place of the struct that carries a name; an enum is none. -/
def structNamed (label name : String) : Working Nat := do
  match ← of ((← registry label).get name) with
  | .struct index => return index
  | .enumeration _ => throw (.unknownType name)

/-- The type of a document, imported into the registry under a label. -/
def importText (label text : String) : Working Ty := do
  let document ← of ((Json.read text).mapError .json)
  inside label (·.importSchema document)

end Working

/-- A field to be made, or a copy of one that exists. -/
inductive FieldSource where
  /-- The loose field of a label. -/
  | loose (label : String)
  /-- A field of a struct, with the stamp that it bears. -/
  | taken (label struct field : String)
  | drafted (draft : FieldDraft)
  deriving DecidableEq, Repr

/-- The field of a source, made in the registry under a label. -/
def FieldSource.build (label : String) : FieldSource → Working Field
  | .loose name => do
    match (← get).fields.lookup name with
    | some field => return field
    | none => throw (.unknownField "" name)
  | .taken source struct field => do
    let index ← Working.structNamed source struct
    Working.of (((← Working.registry source).struct index).getField field)
  | .drafted draft => Working.inside label draft.build

/-- Assign the fields of some sources to a struct. -/
def Working.assign (label struct : String) (sources : List FieldSource) : Working Nat := do
  let index ← Working.structNamed label struct
  let fields ← sources.mapM (·.build label)
  Working.update label (·.setFields index fields)
  return index

/-- Compare the outline of a type with the kept one. -/
def Working.compare (label : String) (type : Ty) : Working String := do
  let text := (← Working.registry label).display type
  return diff ((← get).keptOutline label) text

end Schemata
