import Schemata.Proofs.Avro.Growth
import Schemata.Proofs.Avro.Parts
import Schemata.Proofs.Registry.Beside

/-!
# Reading Behind Other Types

A document is read into a registry that has types already.

Suppose that the document can be read into a registry of its own. Behind other
types it is read step by step in the same way, and the registry at each step is
the one that it would be without them, put behind them (`Registry.beside`).
All handles are raised, and that is all. Two things could come in between.
A definition may have a name that is carried in front (`Clashes`), and a
reference may find a type in front that it would not have found (`Claims`).

The second can only happen to a reference without a dot that stands in a
namespace. It is first looked up within the namespace, and in a registry of
its own it may well be that nothing is found there and the name is then looked
up as it is written. A type in front that has the name within the namespace
would end this too soon. If the name is looked up as it is written, a type of
the document is found, and then no type in front can have that name, since the
names in the registry are distinct.

## Main definitions

* `Avro.Clashes`: A document defines a name that a type of a registry carries.
* `Avro.Claims`: A type of a registry has the name that a reference has within
  its namespace.
* `Avro.ReadBeside`: A part of a reading is read in the same way behind other
  types.

## Theorems

* `Avro.resolve_beside`: A reference finds what it finds without other types.
* `Avro.clashes_record_iff`: A record clashes by its own names or in a field.
* `Avro.reading_beside`: What is read by itself is read behind other types.
-/

namespace Schemata

namespace Avro

open Registry

/-! ### Names in the way -/

/-- The document defines a name that a type of the registry carries. -/
def Clashes (c : Registry) (space : Option String) (doc : Json) (name : String) : Prop :=
  ∃ names, Defines space doc names ∧ names.Carries name ∧ c.Carried name

/-- A type of the registry carries the name that a reference has within its namespace. -/
def Claims (c : Registry) (space : Option String) (doc : Json) : Prop :=
  ∃ inner name, Refers space doc (some inner) name ∧ hasDot name = false ∧
    c.Carried (inner ++ "." ++ name)

section

variable (c r : Registry)

/-- A reference finds behind other types what it finds without them. -/
theorem resolve_beside (hd : (c.beside r).Distinct) {space : Option String} (name : String)
    (h : Handle)
    (hu : ∀ inner, space = some inner → hasDot name = false → ¬ c.Carried (inner ++ "." ++ name))
    (hr : resolve r name space = .ok h) :
    resolve (c.beside r) name space = .ok (h.behind c) := by
  rw [resolve_eq_ok_iff] at hr ⊢
  rcases hr with hq | ⟨hq, hf⟩
  · exact Or.inl (c.find?_beside r hd _ h hq)
  · -- The name within the namespace is another one, and nobody has it.
    refine Or.inr ⟨c.find?_beside_eq_none r _ ?_ hq, c.find?_beside r hd name h hf⟩
    cases space with
    | none =>
        rw [qualify, hf] at hq
        cases hq
    | some inner =>
        cases hdot : hasDot name with
        | true =>
            rw [qualify, if_pos hdot, hf] at hq
            cases hq
        | false =>
            rw [qualify, hdot, if_neg Bool.false_ne_true]
            exact hu inner rfl hdot

end

/-! ### Readings -/

/-- A field is read apart from its type. -/
theorem fieldRead_withType (json : Json) (form : FieldForm) (field : Field) (t : Ty)
    (h : FieldRead json form field) : FieldRead json form { field with type := t } := by
  cases h with
  | mk members schema hname htype hform haliases hnames hdoc hcard hdefault howner =>
      exact .mk members schema hname htype hform haliases hnames hdoc hcard hdefault howner

theorem fieldsRead_behind (c : Registry) (items : List Json) (forms : List FieldForm)
    (fields : List Field) (h : FieldsRead items forms fields) :
    FieldsRead items forms (fields.map (Field.behind c)) := by
  induction h with
  | nil => exact .nil
  | cons item form field items forms fields h rest ih =>
      exact .cons item form _ items forms _
        (fieldRead_withType item form field (field.type.behind c) h) ih

theorem owner_of_fieldsRead (items : List Json) (forms : List FieldForm) (fields : List Field)
    (h : FieldsRead items forms fields) : ∀ field ∈ fields, field.owner = none := by
  induction h with
  | nil => exact fun field hm => absurd hm List.not_mem_nil
  | cons item form field items forms fields h rest ih =>
      intro field' hm
      rcases List.mem_cons.mp hm with rfl | hm
      · cases h with
        | mk _ _ _ _ _ _ _ _ _ _ howner => exact howner
      · exact ih field' hm

/-- A type without parts has no handle. -/
theorem behind_of_leafRead (c : Registry) {doc : Json} (t : Ty) (h : LeafRead doc t) :
    t.behind c = t := by
  have hw := h.writable
  cases t with
  | scalar kind => rfl
  | decimal type => rfl
  | named handle => exact absurd rfl (hw.2 handle)
  | unparsed inner => exact absurd hw.1 id

/-! ### Clashes and claims, by what a document is -/

section

variable (c : Registry) (space : Option String) (members : Members) (name : String)

theorem clashes_wrapped_iff (nested : Members)
    (hk : Json.find? "type" members = some (.object nested)) :
    Clashes c space (.object members) name ↔ Clashes c space (.object nested) name := by
  simp only [Clashes, defines_wrapped_iff space members _ nested hk]

theorem clashes_enum_iff (e : EnumType) (h : EnumRead members space e) :
    Clashes c space (.object members) name ↔ e.names.Carries name ∧ c.Carried name := by
  simp only [Clashes, defines_enum_iff space members _ e h, exists_eq_left]

theorem not_claims_wrapped (nested : Members)
    (hk : Json.find? "type" members = some (.object nested))
    (hn : ¬ Claims c space (.object members)) : ¬ Claims c space (.object nested) := by
  rintro ⟨inner, name, hr, hdot, hcarried⟩
  exact hn ⟨inner, name, refers_of_wrapped space _ members name nested hk hr, hdot, hcarried⟩

variable (s : StructType) (items : List Json) (forms : List FieldForm) (fields : List Field)

theorem clashes_record_iff (h : RecordRead members space s items)
    (hf : FieldsRead items forms fields) : Clashes c space (.object members) name ↔
      (s.names.Carries name ∧ c.Carried name) ∨
      ∃ form ∈ forms, Clashes c (namespaceOf? s.names.name) form.type name := by
  simp only [Clashes, defines_record_iff space members _ s items forms fields h hf]
  constructor
  · rintro ⟨names, rfl | ⟨form, hm, hdef⟩, hc, hcarried⟩
    · exact Or.inl ⟨hc, hcarried⟩
    · exact Or.inr ⟨form, hm, names, hdef, hc, hcarried⟩
  · rintro (⟨hc, hcarried⟩ | ⟨form, hm, names, hdef, hc, hcarried⟩)
    · exact ⟨s.names, Or.inl rfl, hc, hcarried⟩
    · exact ⟨names, Or.inr ⟨form, hm, hdef⟩, hc, hcarried⟩

/-- No reference of a field is claimed if none of the record is. -/
theorem not_claims_forms (h : RecordRead members space s items)
    (hf : FieldsRead items forms fields) (hn : ¬ Claims c space (.object members)) :
    ∀ doc ∈ forms.map FieldForm.type, ¬ Claims c (namespaceOf? s.names.name) doc := by
  rintro doc hm ⟨inner, name, hr, hdot, hcarried⟩
  rcases List.mem_map.mp hm with ⟨form, hform, rfl⟩
  refine hn ⟨inner, name, ?_, hdot, hcarried⟩
  exact refers_of_form space _ members name s items forms fields h hf form hform hr

end

/-! ### An import that goes through -/

/-- What is shown of a part of a reading: behind other types, of which none has a name that is
    defined or claims a reference, the documents are read in the same way. -/
def ReadBeside (c : Registry) (space : Option String) (r : Registry) (docs : List Json)
    (ts : List Ty) (r' : Registry) : Prop :=
  (c.beside r).Distinct → (∀ doc ∈ docs, ¬ Claims c space doc) →
    (∀ doc ∈ docs, ∀ name, ¬ Clashes c space doc name) →
    Reading space (c.beside r) docs (ts.map (Ty.behind c)) (c.beside r')

namespace ReadBeside

variable {c r r₁ r₂ r' : Registry} {space : Option String} {docs : List Json} {ts : List Ty}

/-- A name that is looked up finds behind other types what it finds without them. -/
theorem reference {doc : Json} {name : String} {handle : Handle} (hn : NameRead doc name)
    (hp : ¬ IsPrimitive name) (hr : resolve r name space = .ok handle)
    (ih : ReadBeside c space r docs ts r') :
    ReadBeside c space r (doc :: docs) (.named handle :: ts) r' := by
  intro hd hclaims hclashes
  rw [List.forall_mem_cons] at hclaims hclashes
  refine .reference name (handle.behind c) hn hp ?_ (ih hd hclaims.2 hclashes.2)
  refine resolve_beside c _ hd name handle ?_ hr
  rintro inner rfl hdot hcarried
  exact hclaims.1 ⟨inner, name, refers_of_nameRead _ name hn hp, hdot, hcarried⟩

/-- What is wrapped clashes and claims as it would by itself. -/
theorem wrapped {members nested : Members} {t : Ty}
    (hk : Json.find? "type" members = some (.object nested))
    (ihn : ReadBeside c space r [.object nested] [t] r₁)
    (ihr : ReadBeside c space r₁ docs ts r') :
    ReadBeside c space r (.object members :: docs) (t :: ts) r' := by
  intro hd hclaims hclashes
  rw [List.forall_mem_cons] at hclaims hclashes
  have hnested : Reading space (c.beside r) [.object nested] [t.behind c] (c.beside r₁) := by
    refine ihn hd ?_ ?_
    · rw [List.forall_mem_singleton]
      exact not_claims_wrapped c _ members nested hk hclaims.1
    · rw [List.forall_mem_singleton]
      intro name hc
      exact hclashes.1 name ((clashes_wrapped_iff c _ members name nested hk).mpr hc)
  -- The names stay distinct, as they do in every import.
  exact .wrapped _ members nested _ hk hnested
    (ihr (hnested.grows.distinct hd) hclaims.2 hclashes.2)

/-- An enum takes the same place behind the enums in front. -/
theorem enumeration {members : Members} {e : EnumType} (h : EnumRead members space e)
    (hu : r.Unused e.names) (ih : ReadBeside c space (r.appendEnum e) docs ts r') :
    ReadBeside c space r (.object members :: docs)
      (.named (.enumeration r.enums.length) :: ts) r' := by
  intro hd hclaims hclashes
  rw [List.forall_mem_cons] at hclaims hclashes
  -- A name of the enum that is carried in front would be a clash.
  have hc : c.Unused e.names := by
    rw [unused_iff]
    intro name hc hcarried
    exact hclashes.1 name ((clashes_enum_iff c _ members name e h).mpr ⟨hc, hcarried⟩)
  have hu' : (c.beside r).Unused e.names := (c.unused_beside_iff _ e.names).mpr ⟨hc, hu⟩
  rw [List.map_cons, Ty.behind, Handle.behind, ← c.length_enums_beside _]
  refine .enumeration members e h hu' ?_
  rw [← c.beside_appendEnum _ e]
  refine ih ?_ hclaims.2 hclashes.2
  rw [c.beside_appendEnum _ e]
  exact distinct_appendEnum _ e hu' hd

/-- A record takes the same place behind the structs in front, and its fields are read there. -/
theorem struct {members : Members} {s : StructType} {items : List Json} {forms : List FieldForm}
    {fields : List Field} (h : RecordRead members space s items) (hu : r.Unused s.names)
    (hf : FieldsRead items forms fields)
    (body : Reading (namespaceOf? s.names.name) (r.appendStruct s) (forms.map FieldForm.type)
      (fields.map Field.type) r₁)
    (hs : r₁.setFields r.structs.length fields = .ok r₂)
    (ihb : ReadBeside c (namespaceOf? s.names.name) (r.appendStruct s)
      (forms.map FieldForm.type) (fields.map Field.type) r₁)
    (ihr : ReadBeside c space r₂ docs ts r') :
    ReadBeside c space r (.object members :: docs) (.named (.struct r.structs.length) :: ts)
      r' := by
  intro hd hclaims hclashes
  rw [List.forall_mem_cons] at hclaims hclashes
  have hiff := fun name => clashes_record_iff c _ members name s items forms fields h hf
  have hc : c.Unused s.names := by
    rw [unused_iff]
    intro name hc hcarried
    exact hclashes.1 name ((hiff name).mpr (Or.inl ⟨hc, hcarried⟩))
  have hu' : (c.beside r).Unused s.names := (c.unused_beside_iff _ s.names).mpr ⟨hc, hu⟩
  have hbody : Reading (namespaceOf? s.names.name) ((c.beside r).appendStruct s)
      (forms.map FieldForm.type) ((fields.map (Field.behind c)).map Field.type)
      (c.beside r₁) := by
    have htypes : (fields.map (Field.behind c)).map Field.type
        = (fields.map Field.type).map (Ty.behind c) := by
      rw [List.map_map, List.map_map]
      rfl
    rw [htypes, ← c.beside_appendStruct _ s h.unassigned]
    refine ihb ?_ (not_claims_forms c _ members s items forms fields h hf hclaims.1) ?_
    · rw [c.beside_appendStruct _ s h.unassigned]
      exact distinct_appendStruct _ s hu' hd
    · intro doc hm name hcl
      rcases List.mem_map.mp hm with ⟨form, hform, rfl⟩
      exact hclashes.1 name ((hiff name).mpr (Or.inr ⟨form, hform, hcl⟩))
  -- The record is still there when its fields have been read, and it takes them in.
  have hlt := body.grows.below.lt_of_appendStruct
  have hset := c.setFields_beside r₁ r₂ r.structs.length fields hlt
    (owner_of_fieldsRead items forms fields hf) hs
  rw [← c.length_structs_beside _] at hset
  rw [List.map_cons, Ty.behind, Handle.behind, ← c.length_structs_beside _]
  have hforms := fieldsRead_behind c items forms fields hf
  have hone : Reading space (c.beside r) [.object members]
      [.named (.struct (c.beside r).structs.length)] (c.beside r₂) :=
    .struct _ _ members s items forms _ h hu' hforms hbody hset (.nil _ _)
  exact .struct _ _ members s items forms _ h hu' hforms hbody hset
    (ihr (hone.grows.distinct hd) hclaims.2 hclashes.2)

end ReadBeside

/-- What is read into a registry of its own is read in the same way behind other types, if
    they have none of its names and claim none of its references. -/
theorem reading_beside (c : Registry) {space : Option String} {r r' : Registry} {docs : List Json}
    {ts : List Ty} (h : Reading space r docs ts r') : ReadBeside c space r docs ts r' := by
  -- Along the reading the types in front stay, and what is behind them goes its own way.
  induction h with
  | nil space r => exact fun _ _ _ => .nil space _
  | leaf t h rest ih =>
      intro hd hclaims hclashes
      rw [List.forall_mem_cons] at hclaims hclashes
      rw [List.map_cons, behind_of_leafRead c t h]
      exact .leaf t h (ih hd hclaims.2 hclashes.2)
  | reference name handle hn hp hr rest ih => exact ih.reference hn hp hr
  | wrapped r₁ members nested t hk h rest ihn ihr => exact .wrapped hk ihn ihr
  | enumeration members e h hu rest ih => exact ih.enumeration h hu
  | struct r₁ r₂ members s items forms fields h hu hf body hs rest ihb ihr =>
      exact .struct h hu hf body hs ihb ihr

end Avro

end Schemata
