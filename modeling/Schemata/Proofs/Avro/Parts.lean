import Schemata.Proofs.Avro.ReadBack

/-!
# The Parts of a Document

Which names a document defines and which it refers to, said of the text alone.

An import goes through a document and meets definitions and references on the
way. A statement about an import that has not taken place yet cannot use that
way. `Part` is the way without the import: it goes down from a type to the
types within it, through unions, lists and the fields of records, and keeps
track of the namespace. A union is gone through in all its branches, null
included, and a record in all its fields, although an import would leave off
where something is wrong.

If nothing is wrong, both ways meet the same definitions. An import brings the
type of a field to one form before it looks at it; what it drops is lists,
unions and null, and none of these define anything.

## Main definitions

* `Avro.Part`: A type within a document, and the namespace around it.
* `Avro.Defines`: The names of a definition in a document.
* `Avro.Refers`: A reference in a document.

## Theorems

* `Avro.part_of_formRead`: What is within the form of a field is within the
  field.
* `Avro.part_formRead`: The definitions within a field are within its form.
* `Avro.defines_record_iff`: A record defines itself and what its fields
  define.
-/

namespace Schemata

namespace Avro

/-- The second document is the first one or one of the types within it. Each comes with the
    namespace around it. -/
inductive Part : Option String → Json → Option String → Json → Prop
  | whole (space : Option String) (doc : Json) : Part space doc space doc
  | wrapped {space inner : Option String} (members : Members) {nested part : Json}
      (hk : Json.find? "type" members = some nested) (hs : nested.string? = none)
      (h : Part space nested inner part) : Part space (.object members) inner part
  | branch (space inner : Option String) (branches : List Json) (branch part : Json)
      (hm : branch ∈ branches) (h : Part space branch inner part) :
      Part space (.array branches) inner part
  | item (space inner : Option String) (doc items part : Json)
      (hi : arrayItems? doc = some items) (h : Part space items inner part) :
      Part space doc inner part
  | field (space own inner : Option String) (members field : Members) (name : String)
      (items : List Json) (schema part : Json)
      (hk : Json.find? "type" members = some (.string "record") ∨
        Json.find? "type" members = some (.string "error"))
      (hn : fullName members space = .ok (name, own))
      (hi : Json.find? "fields" members = some (.array items)) (hm : .object field ∈ items)
      (ht : Json.find? "type" field = some schema) (h : Part own schema inner part) :
      Part space (.object members) inner part

/-- The kinds of objects that define a type. -/
def definingKinds : List String :=
  ["record", "error", "enum"]

/-- The object defines a type. -/
def IsDefinition (members : Members) : Prop :=
  ∃ kind ∈ definingKinds, Json.find? "type" members = some (.string kind)

/-- A part of the document defines a type with the names. -/
def Defines (space : Option String) (doc : Json) (names : Names) : Prop :=
  ∃ inner members, Part space doc inner (.object members) ∧ IsDefinition members ∧
    NamesRead members inner names

/-- A part of the document, in the inner namespace, refers to a type by the name. -/
def Refers (space : Option String) (doc : Json) (inner : Option String) (name : String) : Prop :=
  ∃ part, Part space doc inner part ∧ NameRead part name ∧ ¬ IsPrimitive name

/-- An attribute that has a text is a text. -/
theorem find?_of_text? (members : Members) (key text : String)
    (h : text? members key = some text) : Json.find? key members = some (.string text) := by
  rw [text?, Option.bind_eq_some_iff] at h
  rcases h with ⟨value, hf, hs⟩
  cases value with
  | string value =>
      rw [Json.string?, Option.some.injEq] at hs
      rw [hf, hs]
  | null | bool _ | int _ | float _ | array _ | object _ =>
      cases hs

section

variable (space inner : Option String) (members : Members) (part : Json)

/-! ### What a part is a part of -/

theorem part_string (name : String) (h : Part space (.string name) inner part) :
    inner = space ∧ part = .string name := by
  cases h with
  | whole => exact ⟨rfl, rfl⟩
  | item _ _ _ items _ hi _ => exact nomatch hi

theorem part_array (branches : List Json) (h : Part space (.array branches) inner part) :
    part = .array branches ∨ ∃ branch ∈ branches, Part space branch inner part := by
  cases h with
  | whole => exact Or.inl rfl
  | branch _ _ _ branch _ hm h => exact Or.inr ⟨branch, hm, h⟩
  | item _ _ _ items _ hi _ => exact nomatch hi

theorem part_wrapped (nested : Members) (hk : Json.find? "type" members = some (.object nested))
    (h : Part space (.object members) inner part) :
    (inner = space ∧ part = .object members) ∨ Part space (.object nested) inner part := by
  cases h with
  | whole => exact Or.inl ⟨rfl, rfl⟩
  | wrapped _ hk' _ h =>
      rw [hk, Option.some.injEq] at hk'
      rw [← hk'] at h
      exact Or.inr h
  -- Neither a list nor a record has an object for its type.
  | item _ _ _ items _ hi _ =>
      simp only [arrayItems?, text?, hk, Option.bind_some, Json.string?, reduceCtorEq,
        if_false] at hi
  | field _ _ _ _ _ _ _ _ _ hk' =>
      rcases hk' with hk' | hk' <;> rw [hk, Option.some.injEq] at hk' <;>
        exact absurd hk' Json.noConfusion

/-- An object whose type is a text has parts if it is a list or a record. -/
theorem part_object (kind : String) (hk : Json.find? "type" members = some (.string kind))
    (h : Part space (.object members) inner part) : (inner = space ∧ part = .object members) ∨
      (kind = "array" ∧ ∃ items, Json.find? "items" members = some items ∧
        Part space items inner part) ∨
      ((kind = "record" ∨ kind = "error") ∧ ∃ name own items field schema,
        fullName members space = .ok (name, own) ∧
        Json.find? "fields" members = some (.array items) ∧ .object field ∈ items ∧
        Json.find? "type" field = some schema ∧ Part own schema inner part) := by
  cases h with
  | whole => exact Or.inl ⟨rfl, rfl⟩
  | wrapped _ hk' hs _ =>
      rw [hk, Option.some.injEq] at hk'
      rw [← hk'] at hs
      cases hs
  | item _ _ _ items _ hi h =>
      simp only [arrayItems?, text?, hk, Option.bind_some, Json.string?, Option.some.injEq] at hi
      -- Only an array has items.
      by_cases harray : kind = "array"
      · rw [if_pos harray] at hi
        exact Or.inr (Or.inl ⟨harray, items, hi, h⟩)
      · rw [if_neg harray] at hi
        cases hi
  | field _ own _ _ field name items schema _ hk' hn hi hm ht h =>
      refine Or.inr (Or.inr ⟨?_, name, own, items, field, schema, hn, hi, hm, ht, h⟩)
      rw [hk] at hk'
      simpa only [Option.some.injEq, Json.string.injEq] using hk'

/-- Other objects have none. -/
theorem part_of_not_definition (kind : String)
    (hk : Json.find? "type" members = some (.string kind)) (hd : kind ∉ definitionKinds)
    (h : Part space (.object members) inner part) : part = .object members := by
  rcases part_object space inner members part kind hk h with he | ⟨rfl, _⟩ | ⟨hrecord, _⟩
  · exact he.2
  · exact absurd (by decide) hd
  · rcases hrecord with rfl | rfl <;> exact absurd (by decide) hd

/-! ### Definitions within a field -/

theorem not_isDefinition_of_kind (kind : String)
    (hk : Json.find? "type" members = some (.string kind)) (hd : kind ∉ definingKinds) :
    ¬ IsDefinition members := by
  rintro ⟨kind', hm, hk'⟩
  rw [hk, Option.some.injEq, Json.string.injEq] at hk'
  rw [hk'] at hd
  exact hd hm

/-- Null defines nothing. -/
theorem not_definition_of_isNull (doc : Json) (hn : isNull doc = true)
    (hd : IsDefinition members) : ¬ Part space doc inner (.object members) := by
  intro h
  cases doc with
  | string name => exact absurd (part_string space inner _ name h).2 Json.noConfusion
  | object members' =>
      have hk : Json.find? "type" members' = some (.string "null") := by
        rw [isNull, beq_iff_eq] at hn
        exact find?_of_text? members' "type" "null" hn
      -- The word is none for definitions, so the object is its only part.
      have he := part_of_not_definition space inner members' _ "null" hk (by decide) h
      rw [Json.object.injEq] at he
      rw [he] at hd
      exact not_isDefinition_of_kind members' "null" hk (by decide) hd
  | null | bool _ | int _ | float _ | array _ =>
      cases hn

/-- The branch that is left of a union has all its definitions. -/
theorem part_of_splitUnion (branches : List Json) (branch : Json) (nullable : Bool)
    (hs : splitUnion branches = .ok (branch, nullable)) (hd : IsDefinition members)
    (h : Part space (.array branches) inner (.object members)) :
    Part space branch inner (.object members) := by
  rcases part_array space inner _ branches h with he | ⟨b, hm, h⟩
  · exact absurd he Json.noConfusion
  · -- A branch is null and defines nothing, or it is the one that is left.
    have hleft := ((splitUnion_eq_ok_iff branches branch nullable).mp hs).1
    by_cases hn : isNull b = true
    · exact absurd h (not_definition_of_isNull space inner members b hn hd)
    · have hb : b ∈ branches.filter (!isNull ·) := by
        rw [List.mem_filter, Bool.not_eq_true']
        exact ⟨hm, Bool.not_eq_true _ ▸ hn⟩
      rw [hleft, List.mem_singleton] at hb
      rw [← hb]
      exact h

/-- The items of a list have all its definitions. -/
theorem part_of_arrayItems (doc items : Json) (hi : arrayItems? doc = some items)
    (hd : IsDefinition members) (h : Part space doc inner (.object members)) :
    Part space items inner (.object members) := by
  cases doc with
  | object list =>
      rw [arrayItems?] at hi
      by_cases hk : text? list "type" = some "array"
      · rw [if_pos hk] at hi
        have hk' := find?_of_text? list "type" "array" hk
        rcases part_object space inner list _ "array" hk' h with ⟨_, he⟩ | ⟨_, items', hi', h⟩ |
          hrecord
        · -- The list itself is no definition.
          rw [Json.object.injEq] at he
          rw [he] at hd
          exact absurd hd (not_isDefinition_of_kind list "array" hk' (by decide))
        · rw [hi, Option.some.injEq] at hi'
          rw [hi']
          exact h
        · exact absurd hrecord.1 (by decide)
      · rw [if_neg hk] at hi
        cases hi
  | null | bool _ | int _ | float _ | string _ | array _ =>
      cases hi

end

/-! ### Fields and their forms -/

section

variable (space inner : Option String) (part : Json)

theorem part_of_itemRead (items item : Json) (hi : ItemRead items item)
    (h : Part space item inner part) : Part space items inner part := by
  cases hi with
  | plain => exact h
  | union branches _ nullable hs _ =>
      exact .branch space inner branches item part (mem_of_splitUnion hs).1 h

theorem part_itemRead (items item : Json) (members : Members) (hi : ItemRead items item)
    (hd : IsDefinition members) (h : Part space items inner (.object members)) :
    Part space item inner (.object members) := by
  cases hi with
  | plain => exact h
  | union branches _ nullable hs _ =>
      exact part_of_splitUnion space inner members branches item nullable hs hd h

variable (default : Option Json) (schema : Json) (form : FieldForm)

/-- What is within the form of a field is within the field. -/
theorem part_of_formRead (hf : FormRead default schema form)
    (h : Part space form.type inner part) : Part space schema inner part := by
  induction hf with
  | single branch form _ _ ih =>
      exact .branch space inner [branch] branch part List.mem_cons_self (ih h)
  | plain schema _ _ => exact h
  | list schema items item ha hi =>
      exact .item space inner schema items part ha (part_of_itemRead _ _ _ items item hi h)
  | nullable branches branch nullable _ hs _ =>
      exact .branch space inner branches branch part (mem_of_splitUnion hs).1 h
  | nullableList branches branch items item nullable _ hs ha hi =>
      refine .branch space inner branches branch part (mem_of_splitUnion hs).1 ?_
      exact .item space inner branch items part ha (part_of_itemRead _ _ _ items item hi h)

/-- The definitions within a field are within its form. -/
theorem part_formRead (members : Members) (hf : FormRead default schema form)
    (hd : IsDefinition members) (h : Part space schema inner (.object members)) :
    Part space form.type inner (.object members) := by
  -- What the form leaves out, null and the list around the items, defines nothing.
  induction hf with
  | single branch form _ _ ih =>
      rcases part_array space inner _ [branch] h with he | ⟨b, hm, h⟩
      · exact absurd he Json.noConfusion
      · rw [List.mem_singleton] at hm
        rw [hm] at h
        exact ih h
  | plain schema _ _ => exact h
  | list schema items item ha hi =>
      have hitems := part_of_arrayItems space inner members schema items ha hd h
      exact part_itemRead space inner items item members hi hd hitems
  | nullable branches branch nullable _ hs _ =>
      exact part_of_splitUnion space inner members branches branch nullable hs hd h
  | nullableList branches branch items item nullable _ hs ha hi =>
      have hbranch := part_of_splitUnion space inner members branches branch nullable hs hd h
      have hitems := part_of_arrayItems space inner members branch items ha hd hbranch
      exact part_itemRead space inner items item members hi hd hitems

end

section

variable (space inner : Option String) (items : List Json) (forms : List FieldForm)
  (fields : List Field)

/-- Each form is that of a field, and what is within it is within the field. -/
theorem exists_field_of_form (hf : FieldsRead items forms fields) (form : FieldForm)
    (hm : form ∈ forms) : ∃ members schema, .object members ∈ items ∧
      Json.find? "type" members = some schema ∧
      ∀ part, Part space form.type inner part → Part space schema inner part := by
  induction hf with
  | nil => exact absurd hm List.not_mem_nil
  | cons item form' field items forms fields h rest ih =>
      rcases List.mem_cons.mp hm with rfl | hm
      · rcases h with ⟨members, schema, _, htype, hform⟩
        exact ⟨members, schema, List.mem_cons_self, htype,
          fun part => part_of_formRead space inner part _ schema form hform⟩
      · rcases ih hm with ⟨members, schema, hitem, htype, hpart⟩
        exact ⟨members, schema, List.mem_cons_of_mem _ hitem, htype, hpart⟩

/-- Each field has a form, and the definitions within the field are within its form. -/
theorem exists_form_of_field (hf : FieldsRead items forms fields) (field : Members)
    (schema : Json) (hm : .object field ∈ items) (ht : Json.find? "type" field = some schema) :
    ∃ form ∈ forms, ∀ members, IsDefinition members → Part space schema inner (.object members) →
      Part space form.type inner (.object members) := by
  induction hf with
  | nil => exact absurd hm List.not_mem_nil
  | cons item form field' items forms fields h rest ih =>
      -- The field in question is the first, or it is among the others.
      rcases List.mem_cons.mp hm with rfl | hm
      · cases h with
        | mk _ schema' _ htype hform =>
            rw [ht, Option.some.injEq] at htype
            rw [← htype] at hform
            exact ⟨form, List.mem_cons_self, fun members =>
              part_formRead space inner _ schema form members hform⟩
      · rcases ih hm with ⟨form, hform, hpart⟩
        exact ⟨form, List.mem_cons_of_mem _ hform, hpart⟩

end

/-! ### What a document defines and refers to -/

section

variable (space inner : Option String) (members : Members) (names : Names) (name : String)

/-- What is wrapped defines what the whole defines. -/
theorem defines_wrapped_iff (nested : Members)
    (hk : Json.find? "type" members = some (.object nested)) :
    Defines space (.object members) names ↔ Defines space (.object nested) names := by
  constructor
  · rintro ⟨inner, members', hpart, hdef, hnames⟩
    rcases part_wrapped space inner members _ nested hk hpart with ⟨_, he⟩ | hpart
    · rcases hdef with ⟨kind, _, hkind⟩
      rw [Json.object.injEq] at he
      rw [he, hk, Option.some.injEq] at hkind
      exact absurd hkind Json.noConfusion
    · exact ⟨inner, members', hpart, hdef, hnames⟩
  · rintro ⟨inner, members', hpart, hdef, hnames⟩
    exact ⟨inner, members', .wrapped members hk rfl hpart, hdef, hnames⟩

/-- An enum defines itself. -/
theorem defines_enum_iff (e : EnumType) (h : EnumRead members space e) :
    Defines space (.object members) names ↔ names = e.names := by
  constructor
  · rintro ⟨inner, members', hpart, _, hnames⟩
    rcases part_object space inner members _ "enum" h.kind hpart with ⟨rfl, he⟩ | ⟨hkind, _⟩ |
      ⟨hkind, _⟩
    · rw [Json.object.injEq] at he
      rw [he] at hnames
      exact namesRead_unique members _ e.names names h.names hnames
    · exact absurd hkind (by decide)
    · exact absurd hkind (by decide)
  · rintro rfl
    exact ⟨space, members, .whole _ _, ⟨"enum", by decide, h.kind⟩, h.names⟩

section

variable (s : StructType) (items : List Json) (forms : List FieldForm) (fields : List Field)

/-- What is within the form of a field is within the record. -/
theorem part_of_form (h : RecordRead members space s items) (hf : FieldsRead items forms fields)
    (form : FieldForm) (hm : form ∈ forms) (part : Json)
    (hpart : Part (namespaceOf? s.names.name) form.type inner part) :
    Part space (.object members) inner part := by
  rcases h.names with ⟨_, hfull, _⟩
  rcases exists_field_of_form _ inner items forms fields hf form hm with
    ⟨field, schema, hitem, htype, hwithin⟩
  exact .field space _ inner members field _ items schema part h.kind hfull h.items hitem htype
    (hwithin part hpart)

/-- A record defines itself and what its fields define. -/
theorem defines_record_iff (h : RecordRead members space s items)
    (hf : FieldsRead items forms fields) : Defines space (.object members) names ↔
      names = s.names ∨ ∃ form ∈ forms, Defines (namespaceOf? s.names.name) form.type names := by
  rcases h.names with ⟨_, hfull, _⟩
  constructor
  · rintro ⟨inner, members', hpart, hdef, hnames⟩
    have hkind : ∃ kind ∈ definingKinds, Json.find? "type" members = some (.string kind) ∧
        kind ≠ "array" := by
      rcases h.kind with hk | hk
      · exact ⟨"record", by decide, hk, by decide⟩
      · exact ⟨"error", by decide, hk, by decide⟩
    rcases hkind with ⟨kind, _, hk, hne⟩
    rcases part_object space inner members _ kind hk hpart with ⟨rfl, he⟩ | ⟨harray, _⟩ |
      ⟨_, name, own, items', field, schema, hfull', hitems, hitem, htype, hpart⟩
    · rw [Json.object.injEq] at he
      rw [he] at hnames
      exact Or.inl (namesRead_unique members _ s.names names h.names hnames)
    · exact absurd harray hne
    · -- The fields are those that have been read, within the namespace of the record.
      rw [hfull, Except.ok.injEq, Prod.mk.injEq] at hfull'
      rw [h.items, Option.some.injEq, Json.array.injEq] at hitems
      rw [← hfull'.2] at hpart
      rw [← hitems] at hitem
      rcases exists_form_of_field _ inner items forms fields hf field schema hitem htype with
        ⟨form, hform, hwithin⟩
      exact Or.inr ⟨form, hform, inner, members', hwithin members' hdef hpart, hdef, hnames⟩
  · rintro (rfl | ⟨form, hform, inner, members', hpart, hdef, hnames⟩)
    · refine ⟨space, members, .whole _ _, ?_, h.names⟩
      rcases h.kind with hk | hk
      · exact ⟨"record", by decide, hk⟩
      · exact ⟨"error", by decide, hk⟩
    · exact ⟨inner, members', part_of_form space inner members s items forms fields h hf form
        hform _ hpart, hdef, hnames⟩

/-- A record refers to what its fields refer to. -/
theorem refers_of_form (h : RecordRead members space s items) (hf : FieldsRead items forms fields)
    (form : FieldForm) (hm : form ∈ forms)
    (hr : Refers (namespaceOf? s.names.name) form.type inner name) :
    Refers space (.object members) inner name := by
  rcases hr with ⟨part, hpart, hname⟩
  exact ⟨part, part_of_form space inner members s items forms fields h hf form hm part hpart,
    hname⟩

end

theorem refers_of_nameRead {doc : Json} (hn : NameRead doc name) (hp : ¬ IsPrimitive name) :
    Refers space doc space name :=
  ⟨doc, .whole space doc, hn, hp⟩

/-- What is wrapped refers to nothing but what the whole refers to. -/
theorem refers_of_wrapped (nested : Members)
    (hk : Json.find? "type" members = some (.object nested))
    (hr : Refers space (.object nested) inner name) :
    Refers space (.object members) inner name := by
  rcases hr with ⟨part, hpart, hname⟩
  exact ⟨part, .wrapped members hk rfl hpart, hname⟩

end

end Avro

end Schemata
