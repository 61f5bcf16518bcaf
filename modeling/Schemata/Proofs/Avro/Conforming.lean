import Schemata.Avro.Validation
import Schemata.Proofs.Avro.Walk

/-!
# Graphs That Conform

When the export of a graph breaks no rule of the schema language, said of the
graph.

An export is checked like any other document: names have to be well formed, a
reference has to lead to a type that has been met, and the default of a field
has to fit the schema of the field. The last two depend on what has been met so
far, and what a default fits depends on the schemas of the types it leads to.
`Conforms` follows the walk of the export and keeps account of both, but it
does not look at documents. It has one case for each way to write a type, and
in each case says what is asked of the type and of the field that holds it.

The rules read names in their own way. An empty namespace is none, and a name
that is the type of a field may be taken for the beginning of a definition:
`Seen.readAsType?` gives nothing for a type called `array`.

## Main definitions

* `Avro.ownSpace`, `Avro.knownAliases`: Names as the rules read them.
* `Avro.NamesConform`: Name and aliases are well formed.
* `Avro.Seen.read?`, `Avro.Seen.readAsType?`: What a name is read as.
* `Avro.kindWords`: The words that begin a definition.
* `Avro.leafSchema`: The schema of a type without parts.
* `Avro.slotSchema`, `Avro.slotDefault`, `Avro.slot`: What a field is read as.
* `Avro.FieldConforms`: Name and default of a field break no rule.
* `Avro.EnumConforms`, `Avro.StructConforms`: A definition breaks no rule.
* `Avro.Conforms`: Some fields, with all they lead to, break no rule.
* `Avro.TypeConforms`: A type, with all it leads to, breaks no rule.

## Theorems

* `Avro.fieldRead?_eq_read?`: Other words are read the same wherever they stand.
* `Avro.conforms_leaf_iff`, `Avro.conforms_reference_iff`,
  `Avro.conforms_enumeration_iff`, `Avro.conforms_struct_iff`: What is asked of
  the first of some fields, by what its type is.
* `Avro.typeConforms_leaf_iff`, `Avro.typeConforms_enumeration_iff`,
  `Avro.typeConforms_struct_iff`: What is asked of a root, by what it is.
-/

namespace Schemata

namespace Avro

/-! ### Names -/

/-- The namespace that a name brings along; the empty one is none. -/
def ownSpace (name : String) : Option String :=
  someSpace (namespaceOf? name)

/-- The aliases of a type, as they are known. -/
def knownAliases (names : Names) : List String :=
  (names.aliases.toList.map (qualify · (ownSpace names.name))).map
    (inSpace · (ownSpace names.name))

/-- Name and aliases of a type are well formed. -/
structure NamesConform (names : Names) : Prop where
  name : isTypeName names.name = true
  space : (ownSpace names.name).all isNamespace = true
  aliases : ∀ name ∈ names.aliases.toList, isTypeName (qualify name (ownSpace names.name)) = true

/-- What a name is read as. -/
def Seen.read? (seen : Seen) (space : Option String) (name : String) : Option Schema :=
  (Schema.primitive? name).or
    (if isTypeName name then seen.refer? (inSpace name space) else none)

/-- The words that begin a definition where they are the type of a field. -/
def kindWords : List String :=
  ["array", "map", "record", "enum", "fixed"]

/-- What a name is read as where it is the type of a field. There a word that begins a definition
    is taken for that. -/
def Seen.readAsType? (seen : Seen) (space : Option String) (name : String) : Option Schema :=
  if name = "array" ∨ name = "map" then none
  else if name = "record" ∨ name = "enum" ∨ name = "fixed" then
    seen.earlier? (inSpace name space)
  else seen.read? space name

/-! ### Types without parts -/

/-- The schema of a scalar type. -/
def scalarLeaf : ScalarKind → Schema
  | .boolean => .boolean
  | .float => .float
  | .double => .double
  | .string => .string
  | .binaryHex | .binaryBase64 => .bytes
  | .date => .logical .date
  | .time => .logical .timeMillis
  | .timeMicros => .logical .timeMicros
  | .dateTime => .logical .timestampMillis
  | .dateTimeMicros => .logical .timestampMicros

/-- The schema of a decimal type. -/
def decimalLeaf (type : DecimalType) : Schema :=
  if type = .int then .int
  else if type = .long then .long
  else .decimal type.precision type.scale .bytes

/-- The schema of a type without parts. -/
def leafSchema : Ty → Option Schema
  | .scalar kind => some (scalarLeaf kind)
  | .decimal type => some (decimalLeaf type)
  | _ => none

/-- The enum is read as the schema, and is met then. -/
structure EnumConforms (e : EnumType) (seen : Seen) (schema : Schema) (seen' : Seen) : Prop where
  names : NamesConform e.names
  symbols : ∀ symbol ∈ e.symbols, isIdentifier symbol = true
  read : schema = .enumeration (inSpace e.name none) e.symbols e.default
  met : seen' = seen.finish (inSpace e.name none) (knownAliases e.names) schema

/-! ### Fields -/

/-- The schema of a field, given that of one value. -/
def slotSchema (schema : Schema) : Cardinality → Default → Schema
  | .required, _ => schema
  | .optional, .literal _ => .union [schema, .null]
  | .optional, _ => .union [.null, schema]
  | .repeated, _ => .array schema

/-- The default that is written of a field. -/
def slotDefault : Cardinality → Default → Option Json
  | .required, .literal value => some value
  | .required, _ => none
  | .optional, .none => none
  | .optional, .null => some .null
  | .optional, .literal value => some value
  | .repeated, .literal value => some value
  | .repeated, _ => some (.array [])

/-- What a field is read as. -/
abbrev Slot :=
  String × Schema × Option Json

/-- What a field is read as, given the schema of one value. -/
def slot (field : Field) (schema : Schema) : Slot :=
  (field.name, slotSchema schema field.cardinality field.default,
    slotDefault field.cardinality field.default)

/-- What the name of a type is read as where a field holds it. -/
def fieldRead? (seen : Seen) (space : Option String) (field : Field) (name : String) :
    Option Schema :=
  if field.cardinality = .required then seen.readAsType? space name else seen.read? space name

/-- The field breaks no rule, given the schema of one value: its name is well formed, the schema
    may stand in a union with null if the value may be missing, and the default fits. -/
structure FieldConforms (known : Environment) (depth : Nat) (field : Field) (schema : Schema) :
    Prop where
  name : isIdentifier field.name = true
  branch : field.cardinality = .optional → schema.kind ≠ .null ∧ schema.kind ≠ .union
  default : ∀ value ∈ slotDefault field.cardinality field.default,
    checkDefault known depth (slotSchema schema field.cardinality field.default) value = .ok ()

/-- The fields, one after another and with all they lead to, break no rule, where documents nest
    no deeper than a depth. They are within a namespace, after what is written and met already. -/
inductive Conforms (r : Registry) (depth : Nat) :
    Option String → Written → Seen → List Field → List Slot → Written → Seen → Prop
  | nil (space : Option String) (written : Written) (seen : Seen) :
      Conforms r depth space written seen [] [] written seen
  | leaf {space : Option String} {written written' : Written} {seen seen' : Seen} {field : Field}
      {fields : List Field} {slots : List Slot} (schema : Schema)
      (ht : leafSchema field.type.core = some schema)
      (hf : FieldConforms seen.complete depth field schema)
      (rest : Conforms r depth space written seen fields slots written' seen') :
      Conforms r depth space written seen (field :: fields) (slot field schema :: slots) written'
        seen'
  | reference {space : Option String} {written written' : Written} {seen seen' : Seen}
      {field : Field} {fields : List Field} {slots : List Slot} (h : Handle) (schema : Schema)
      (ht : field.type.core = .named h) (hw : h ∈ written)
      (hs : fieldRead? seen space field (r.nameOf h) = some schema)
      (hf : FieldConforms seen.complete depth field schema)
      (rest : Conforms r depth space written seen fields slots written' seen') :
      Conforms r depth space written seen (field :: fields) (slot field schema :: slots) written'
        seen'
  | enumeration {space : Option String} {written written' : Written} {seen seen' : Seen}
      {field : Field} {fields : List Field} {slots : List Slot} (seen₁ : Seen) (i : Nat)
      (schema : Schema) (ht : field.type.core = .named (.enumeration i))
      (hw : .enumeration i ∉ written) (he : EnumConforms (r.enumeration i) seen schema seen₁)
      (hf : FieldConforms seen₁.complete depth field schema)
      (rest : Conforms r depth space (.enumeration i :: written) seen₁ fields slots written'
        seen') :
      Conforms r depth space written seen (field :: fields) (slot field schema :: slots) written'
        seen'
  | struct {space : Option String} {written written₁ written' : Written} {seen seen₂ seen' : Seen}
      {field : Field} {fields : List Field} {slots : List Slot} (seen₁ : Seen) (own : List Field)
      (inner : List Slot) (i : Nat) (schema : Schema) (ht : field.type.core = .named (.struct i))
      (hw : .struct i ∉ written) (hn : NamesConform (r.struct i).names)
      (ho : (r.struct i).fields = some own)
      (body : Conforms r depth (ownSpace (r.struct i).name) (.struct i :: written)
        (seen.start (inSpace (r.struct i).name none) (knownAliases (r.struct i).names)) own inner
        written₁ seen₁)
      (hs : schema = .record (inSpace (r.struct i).name none) inner)
      (hseen : seen₂ = seen₁.finish (inSpace (r.struct i).name none)
        (knownAliases (r.struct i).names) schema)
      (hf : FieldConforms seen₂.complete depth field schema)
      (rest : Conforms r depth space written₁ seen₂ fields slots written' seen') :
      Conforms r depth space written seen (field :: fields) (slot field schema :: slots) written'
        seen'

/-- The struct is read as the schema, with all its fields lead to, and is met then. -/
def StructConforms (r : Registry) (depth : Nat) (written : Written) (seen : Seen) (i : Nat)
    (own : List Field) (written' : Written) (schema : Schema) (seen' : Seen) : Prop :=
  NamesConform (r.struct i).names ∧ ∃ inner seen₁,
    Conforms r depth (ownSpace (r.struct i).name) (.struct i :: written)
      (seen.start (inSpace (r.struct i).name none) (knownAliases (r.struct i).names)) own inner
      written' seen₁ ∧
    schema = .record (inSpace (r.struct i).name none) inner ∧
    seen' = seen₁.finish (inSpace (r.struct i).name none) (knownAliases (r.struct i).names) schema

/-- The type, with all it leads to, breaks no rule and is read as the schema, where documents nest
    no deeper than a depth. -/
inductive TypeConforms (r : Registry) (depth : Nat) (type : Ty) (schema : Schema) : Prop
  | leaf (ht : leafSchema type.core = some schema)
  | enumeration (i : Nat) (seen : Seen) (ht : type.core = .named (.enumeration i))
      (he : EnumConforms (r.enumeration i) .empty schema seen)
  | struct (i : Nat) (own : List Field) (written : Written) (seen : Seen)
      (ht : type.core = .named (.struct i)) (ho : (r.struct i).fields = some own)
      (hs : StructConforms r depth [] .empty i own written schema seen)

/-- A name that is none of the words is read the same wherever it stands. -/
theorem fieldRead?_eq_read? (seen : Seen) (space : Option String) (field : Field) (name : String)
    (h : name ∉ kindWords) : fieldRead? seen space field name = seen.read? space name := by
  have hne : ∀ word ∈ kindWords, name ≠ word := by
    rintro word hm rfl
    exact h hm
  unfold fieldRead? Seen.readAsType?
  rw [if_neg (not_or.mpr ⟨hne "array" (by decide), hne "map" (by decide)⟩),
    if_neg (not_or.mpr ⟨hne "record" (by decide),
      not_or.mpr ⟨hne "enum" (by decide), hne "fixed" (by decide)⟩⟩), ite_self]

/-! ### Each way to write a type -/

section

variable (r : Registry) (depth : Nat) (space : Option String) (written written' : Written)
  (seen seen' : Seen) (field : Field) (fields : List Field) (slots : List Slot)

/-- A type without parts has no name. -/
theorem ne_named_of_leafSchema {t : Ty} {schema : Schema} (ht : leafSchema t = some schema)
    (h : Handle) : t ≠ .named h := by
  rintro rfl
  exact nomatch ht

/-- A field of a type without parts, and the fields behind it. -/
theorem conforms_leaf_iff (schema : Schema) (ht : leafSchema field.type.core = some schema) :
    Conforms r depth space written seen (field :: fields) slots written' seen' ↔
      FieldConforms seen.complete depth field schema ∧
        ∃ rest, Conforms r depth space written seen fields rest written' seen' ∧
          slots = slot field schema :: rest := by
  have hnot := ne_named_of_leafSchema ht
  constructor
  · intro h
    -- Only the first rule is for types without a name.
    cases h with
    | leaf _ ht' hf rest =>
        rw [ht, Option.some.injEq] at ht'
        rw [ht']
        exact ⟨hf, _, rest, rfl⟩
    | reference _ _ ht' => exact absurd ht' (hnot _)
    | enumeration _ _ _ ht' => exact absurd ht' (hnot _)
    | struct _ _ _ _ _ ht' => exact absurd ht' (hnot _)
  · rintro ⟨hf, rest, h, rfl⟩
    exact .leaf _ ht hf h

/-- A field of a type that is written already, and the fields behind it. -/
theorem conforms_reference_iff (h : Handle) (ht : field.type.core = .named h) (hw : h ∈ written) :
    Conforms r depth space written seen (field :: fields) slots written' seen' ↔
      ∃ schema, fieldRead? seen space field (r.nameOf h) = some schema ∧
        FieldConforms seen.complete depth field schema ∧
        ∃ rest, Conforms r depth space written seen fields rest written' seen' ∧
          slots = slot field schema :: rest := by
  constructor
  · intro hc
    cases hc with
    | leaf _ ht' => exact absurd ht (ne_named_of_leafSchema ht' _)
    | reference h' schema ht' _ hs hf rest =>
        rw [ht, Ty.named.injEq] at ht'
        rw [← ht'] at hs
        exact ⟨schema, hs, hf, _, rest, rfl⟩
    -- What is written already is not defined again.
    | enumeration _ i _ ht' hw' =>
        rw [ht, Ty.named.injEq] at ht'
        exact absurd (ht' ▸ hw) hw'
    | struct _ _ _ i _ ht' hw' =>
        rw [ht, Ty.named.injEq] at ht'
        exact absurd (ht' ▸ hw) hw'
  · rintro ⟨schema, hs, hf, rest, hc, rfl⟩
    exact .reference h schema ht hw hs hf hc

/-- A field of an enum that is written here, and the fields behind it. -/
theorem conforms_enumeration_iff (i : Nat) (ht : field.type.core = .named (.enumeration i))
    (hw : .enumeration i ∉ written) :
    Conforms r depth space written seen (field :: fields) slots written' seen' ↔
      ∃ schema seen₁, EnumConforms (r.enumeration i) seen schema seen₁ ∧
        FieldConforms seen₁.complete depth field schema ∧
        ∃ rest, Conforms r depth space (.enumeration i :: written) seen₁ fields rest written'
            seen' ∧
          slots = slot field schema :: rest := by
  constructor
  · intro hc
    cases hc with
    | leaf _ ht' => exact absurd ht (ne_named_of_leafSchema ht' _)
    -- What is not written yet is not referred to.
    | reference _ _ ht' hw' =>
        rw [ht, Ty.named.injEq] at ht'
        exact absurd (ht' ▸ hw') hw
    | enumeration seen₁ j schema ht' _ he hf rest =>
        rw [ht, Ty.named.injEq, Handle.enumeration.injEq] at ht'
        cases ht'
        exact ⟨schema, seen₁, he, hf, _, rest, rfl⟩
    | struct _ _ _ _ _ ht' =>
        rw [ht, Ty.named.injEq] at ht'
        exact absurd ht' Handle.noConfusion
  · rintro ⟨schema, seen₁, he, hf, rest, hc, rfl⟩
    exact .enumeration seen₁ i schema ht hw he hf hc

/-- A field of a struct that is written here, and the fields behind it. -/
theorem conforms_struct_iff (i : Nat) (own : List Field)
    (ht : field.type.core = .named (.struct i)) (hw : .struct i ∉ written)
    (ho : (r.struct i).fields = some own) :
    Conforms r depth space written seen (field :: fields) slots written' seen' ↔
      ∃ schema seen₂ written₁, StructConforms r depth written seen i own written₁ schema seen₂ ∧
        FieldConforms seen₂.complete depth field schema ∧
        ∃ rest, Conforms r depth space written₁ seen₂ fields rest written' seen' ∧
          slots = slot field schema :: rest := by
  constructor
  · intro hc
    cases hc with
    | leaf _ ht' => exact absurd ht (ne_named_of_leafSchema ht' _)
    | reference _ _ ht' hw' =>
        rw [ht, Ty.named.injEq] at ht'
        exact absurd (ht' ▸ hw') hw
    | enumeration _ _ _ ht' =>
        rw [ht, Ty.named.injEq] at ht'
        exact absurd ht' Handle.noConfusion
    | struct seen₁ own' inner j schema ht' _ hn ho' body hs hseen hf hrest =>
        rw [ht, Ty.named.injEq, Handle.struct.injEq] at ht'
        -- The handle of the type is the one in hand, and so are its fields.
        cases ht'
        rw [ho, Option.some.injEq] at ho'
        cases ho'
        exact ⟨schema, _, _, ⟨hn, inner, seen₁, body, hs, hseen⟩, hf, _, hrest, rfl⟩
  · rintro ⟨schema, seen₂, written₁, ⟨hn, inner, seen₁, body, hs, hseen⟩, hf, rest, hrest, rfl⟩
    exact .struct seen₁ own inner i schema ht hw hn ho body hs hseen hf hrest

end

/-! ### Each way to be a root -/

section

variable (r : Registry) (depth : Nat) (type : Ty) (schema : Schema)

theorem typeConforms_leaf_iff (leaf : Schema) (ht : leafSchema type.core = some leaf) :
    TypeConforms r depth type schema ↔ leaf = schema := by
  have hnot := ne_named_of_leafSchema ht
  constructor
  · intro h
    cases h with
    | leaf ht' =>
        rw [ht, Option.some.injEq] at ht'
        exact ht'
    | enumeration _ _ ht' => exact absurd ht' (hnot _)
    | struct _ _ _ _ ht' => exact absurd ht' (hnot _)
  · rintro rfl
    exact .leaf ht

theorem typeConforms_enumeration_iff (i : Nat) (ht : type.core = .named (.enumeration i)) :
    TypeConforms r depth type schema ↔
      ∃ seen, EnumConforms (r.enumeration i) .empty schema seen := by
  constructor
  · intro h
    cases h with
    | leaf ht' => exact absurd ht (ne_named_of_leafSchema ht' _)
    | enumeration j seen ht' he =>
        rw [ht, Ty.named.injEq, Handle.enumeration.injEq] at ht'
        rw [ht']
        exact ⟨seen, he⟩
    | struct _ _ _ _ ht' =>
        rw [ht, Ty.named.injEq] at ht'
        exact absurd ht' Handle.noConfusion
  · rintro ⟨seen, he⟩
    exact .enumeration i seen ht he

theorem typeConforms_struct_iff (i : Nat) (own : List Field)
    (ht : type.core = .named (.struct i)) (ho : (r.struct i).fields = some own) :
    TypeConforms r depth type schema ↔
      ∃ written seen, StructConforms r depth [] .empty i own written schema seen := by
  constructor
  · intro h
    cases h with
    | leaf ht' => exact absurd ht (ne_named_of_leafSchema ht' _)
    | enumeration _ _ ht' =>
        rw [ht, Ty.named.injEq] at ht'
        exact absurd ht' Handle.noConfusion
    | struct j own' written seen ht' ho' hs =>
        rw [ht, Ty.named.injEq, Handle.struct.injEq] at ht'
        rw [← ht'] at ho' hs
        rw [ho, Option.some.injEq] at ho'
        rw [ho']
        exact ⟨written, seen, hs⟩
  · rintro ⟨written, seen, hs⟩
    exact .struct i own written seen ht ho hs

end

end Avro

end Schemata
