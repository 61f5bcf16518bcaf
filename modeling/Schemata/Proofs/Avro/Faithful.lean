import Schemata.Proofs.Avro.Documents
import Schemata.Proofs.Avro.Walk

/-!
# Graphs That Documents Tell in Full

What a document can say of a graph, and what it cannot.

Most of a graph can be written down and read back. What gets lost is little,
and all of it can be seen on the graph. Unparsed content is written as what it
is, and bytes in base64 like other bytes. Of the decimal types a document can
name those of some precision and scale. A list without a default is written
with an empty one. An alias without a dot is read as an alias within the
namespace of its type.

The last of these losses is about references. A type that is defined already
is written by its live name, and whoever reads that name looks within the
namespace around it first. `Reference.Resolves` says that the name is not
taken for another: it is no primitive name, and within the namespace no other
type that is defined by then carries it. Where that fails the reference is
captured.

`Faithful` puts these together. It is not only enough for a graph to come back
the same but also necessary, which is why each part is stated for the types
that can be reached and for nothing else.

## Main definitions

* `DecimalType.Writable`, `Ty.Writable`, `Field.Writable`: What can be read
  back as it was.
* `Avro.Reference.Resolves`: A name is read as what it was written for.
* `Avro.Uncaptured`: All references of an export resolve.
* `Avro.Complete`: What can be reached is there, and structs have their fields.
* `Avro.Plain`: What can be reached is written in full, references aside.
* `Avro.Faithful`: All that can be reached is written in full.

## Theorems

* `Avro.resolve_eq_ok_iff`: What a reference stands for.
* `Avro.Plain.types`: Types that can be reached are read back as they were.
-/

namespace Schemata

/-! ### Types -/

/-- The type is that of native integers, or one that a precision and a scale make. -/
def DecimalType.Writable (type : DecimalType) : Prop :=
  type = .int ∨ type = .long ∨ ∃ precision scale, precision < Avro.numberLimit ∧
    scale < Avro.numberLimit ∧ DecimalType.new precision scale = .ok type

/-- The type, up to what its name stands for, is read back as it was. -/
def Ty.Writable : Ty → Prop
  | .scalar kind => kind ≠ .binaryBase64
  | .decimal type => type.Writable
  | .named _ => True
  | .unparsed _ => False

theorem Ty.Writable.core_eq (t : Ty) (h : t.Writable) : t.core = t := by
  cases t with
  | unparsed t => exact h.elim
  | scalar _ | decimal _ | named _ => rfl

/-- The field, up to what the name of its type stands for, is read back as it was. -/
def Field.Writable (field : Field) : Prop :=
  field.type.Writable ∧ (field.cardinality = .repeated → ∃ value, field.default = .literal value)

namespace Avro

/-! ### References -/

/-- A reference stands for what carries its name within the namespace, and where there is nothing,
    for what carries the name as it is. -/
theorem resolve_eq_ok_iff (r : Registry) (name : String) (space : Option String) (h : Handle) :
    resolve r name space = .ok h ↔ r.find? (qualify name space) = some h ∨
      r.find? (qualify name space) = none ∧ r.find? name = some h := by
  unfold resolve Registry.get
  cases r.find? (qualify name space) with
  | some found =>
      simp only [Except.ok.injEq, Option.some.injEq, reduceCtorEq, false_and, or_false]
  | none =>
      cases r.find? name with
      | some found =>
          simp only [Except.ok.injEq, Option.some.injEq, reduceCtorEq, true_and, false_or]
      | none => simp only [reduceCtorEq, and_false, or_self]

/-- The name of a reference is read as what it was written for: it is no primitive name, and
    the name that it is first taken for is carried by no other type that is defined by then. -/
def Reference.Resolves (r : Registry) (ref : Reference) : Prop :=
  ¬ IsPrimitive (r.nameOf ref.target) ∧ ∀ h ∈ ref.written,
    (r.namesOf h).Carries (qualify (r.nameOf ref.target) ref.space) → h = ref.target

instance (r : Registry) (ref : Reference) : Decidable (ref.Resolves r) :=
  inferInstanceAs (Decidable (_ ∧ _))

/-- Every reference of the export is read as what it was written for. -/
def Uncaptured (r : Registry) (root : Ty) : Prop :=
  ∀ e refs written, Walk r none [] [root] [e] refs written → ∀ ref ∈ refs, ref.Resolves r

/-! ### Graphs -/

/-- Types stand behind the handles that can be reached, and structs have their fields. -/
structure Complete (r : Registry) (root : Ty) : Prop where
  held : ∀ h, r.Reaches root (.named h) → r.Holds h
  assigned : ∀ i, r.Reaches root (.named (.struct i)) → ∃ fields, (r.struct i).fields = some fields

/-- All that can be reached is written in full, apart from what references stand for. -/
structure Plain (r : Registry) (root : Ty) : Prop where
  complete : Complete r root
  start : root.Writable
  fields : ∀ i fields, r.Reaches root (.named (.struct i)) → (r.struct i).fields = some fields →
    ∀ field ∈ fields, field.Writable
  names : ∀ h, r.Reaches root (.named h) → (r.namesOf h).Fit

/-- All that can be reached is written in full. -/
structure Faithful (r : Registry) (root : Ty) : Prop where
  plain : Plain r root
  uncaptured : Uncaptured r root

theorem Plain.types (r : Registry) (root t : Ty) (hp : Plain r root) (h : r.Reaches root t) :
    t.Writable := by
  induction h with
  | root => exact hp.start
  | inner t _ ih => exact ih.elim
  | field i fields field h hf hm _ => exact (hp.fields i fields h hf field hm).1

/-- A type that can be written in full and leads to another without fields is that type. -/
theorem Plain.eq_of_core (r : Registry) (root : Ty) (hp : Plain r root) (t u : Ty)
    (h : r.Reaches root t) (hu : t.core = u) : t = u :=
  ((hp.types r root t h).core_eq t).symm.trans hu

theorem Plain.holds (r : Registry) (root : Ty) (hp : Plain r root) {written : List Handle}
    (hw : ∀ h ∈ written, r.Reaches root (.named h)) : ∀ h ∈ written, r.Holds h :=
  fun h hm => hp.complete.held h (hw h hm)

end Avro

end Schemata
