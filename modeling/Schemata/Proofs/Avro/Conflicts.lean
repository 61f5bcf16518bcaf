import Schemata.Proofs.Avro.Behind

/-!
# Imports That Meet a Name Again

A document is refused because of a name.

A document that can be read into a registry of its own cannot be read behind
other types if one of those has a name of it. The import goes on until it comes
to the first definition that has such a name, and there it stops with a
conflict. It does not stop before, and not for another reason: up to that
definition everything goes as it does behind types with other names.

`reading_beside` covers what lies before the definition. For the definition
itself there is no reading, so the steps of an import are followed here by what
they come to when one of them fails: a list of documents with the first that
fails, a field with its type, a record with its name or with its fields.

## Main definitions

* `Avro.Refused`: An import stops at a name that is carried in front.
* `Avro.RefusedBeside`: A part of a reading is refused behind other types.

## Theorems

* `Avro.importRecord_of_conflict`, `Avro.importRecord_of_error`,
  `Avro.importEnum_of_conflict`: How a definition fails.
* `Avro.refused_of_reading`: The first document goes through, and another one
  is refused.
* `Avro.refused_beside`: What is read by itself is refused behind types that
  have one of its names.
-/

namespace Schemata

namespace Avro

open Registry

/-! ### Steps that fail -/

section

variable (importType : Option String → Json → Building Ty) (space : Option String) (r r₁ : Registry)
  (e : SchemaError)

theorem importTypes_cons_of_error (doc : Json) (docs : List Json)
    (h : importType space doc r = .error e r₁) :
    importTypes importType space (doc :: docs) r = .error e r₁ :=
  run_bind_of_error h

theorem importTypes_cons_of_ok (doc : Json) (docs : List Json) (t : Ty) (r₂ : Registry)
    (h : importType space doc r = .ok t r₂)
    (hrest : importTypes importType space docs r₂ = .error e r₁) :
    importTypes importType space (doc :: docs) r = .error e r₁ := by
  rw [importTypes, run_bind_of_ok h]
  exact run_bind_of_error hrest

/-- Of some documents the first one fails or one of the others does. -/
theorem importTypes_cons_eq_error (doc : Json) (docs : List Json)
    (h : importTypes importType space (doc :: docs) r = .error e r₁) :
    importType space doc r = .error e r₁ ∨ ∃ t r₂, importType space doc r = .ok t r₂ ∧
      importTypes importType space docs r₂ = .error e r₁ := by
  rw [importTypes] at h
  cases hrun : importType space doc r with
  | error e' r₂ =>
      rw [run_bind_of_error hrun, EStateM.Result.error.injEq] at h
      rw [h.1, h.2]
      exact Or.inl rfl
  -- Behind the first document the others fail, since there would be no error otherwise.
  | ok t r₂ =>
      rw [run_bind_of_ok hrun] at h
      cases hrest : importTypes importType space docs r₂ with
      | error e' r₃ =>
          rw [run_bind_of_error hrest] at h
          exact Or.inr ⟨t, r₂, rfl, hrest.trans h⟩
      | ok ts r₃ =>
          rw [run_bind_of_ok hrest] at h
          cases h

theorem importTypes_nil_ne_error : importTypes importType space [] r ≠ .error e r₁ := by
  rw [importTypes, run_pure]
  intro h
  cases h

/-- A field fails with its type. -/
theorem importField_of_error (json : Json) (form : FieldForm) (field : Field)
    (h : FieldRead json form field) (ht : importType space form.type r = .error e r₁) :
    importField importType space json r = .error e r₁ := by
  cases h with
  | mk members schema hname htype hform =>
      have hform' := (fieldForm_eq_ok_iff field.name schema _ form).mpr hform
      rw [importField]
      simp only [hname, htype]
      rw [run_bind_of_ok ((Building.run_ofShape_eq_ok_iff r r).mpr ⟨hform', rfl⟩)]
      exact run_bind_of_error ht

/-- The fields of a record fail with their types. -/
theorem importFields_of_error (items : List Json) (forms : List FieldForm) (fields : List Field)
    (h : FieldsRead items forms fields)
    (ht : importTypes importType space (forms.map FieldForm.type) r = .error e r₁) :
    importFields importType space items r = .error e r₁ := by
  induction h generalizing r with
  | nil => exact absurd ht (importTypes_nil_ne_error importType space r r₁ e)
  | cons item form field items forms fields h rest ih =>
      rw [importFields]
      rcases importTypes_cons_eq_error importType space r r₁ e _ _ ht with hrun |
        ⟨t, r₂, hrun, hrest⟩
      · exact run_bind_of_error
          (importField_of_error importType space r r₁ e item form field h hrun)
      · -- The field of the first type is read in full, so the import goes on to the others.
        have hfield : importField importType space item r = .ok { field with type := t } r₂ :=
          (importField_eq_ok_iff importType space item _ r r₂).mpr
            ⟨form, fieldRead_withType item form field t h, hrun⟩
        rw [run_bind_of_ok hfield]
        exact run_bind_of_error (ih r₂ hrest)

/-- A record that can be read is registered, and then its fields are imported. -/
theorem importRecord_of_recordRead (members : Members) (s : StructType) (items : List Json)
    (h : RecordRead members space s items) : importRecord importType space members r = (do
      let index ← Building.update (·.registerStruct s)
      let fields ← importFields importType (namespaceOf? s.names.name) items
      Building.update fun r => do return (← r.setFields index fields, ())
      return .named (.struct index) : Building Ty) r := by
  rcases h.names with ⟨list, hname, haliases, hnames⟩
  have hnew : StructType.new s.names.name list (text? members "doc") = .ok s :=
    structNew_eq_ok_iff.mpr ⟨hnames, h.documentation, h.unassigned⟩
  unfold importRecord
  -- Up to the registration every step goes through and leaves the registry as it is.
  rw [run_bind_of_ok ((Building.run_ofShape_eq_ok_iff r r).mpr ⟨hname, rfl⟩)]
  simp only []
  rw [run_bind_of_ok ((Building.run_ofShape_eq_ok_iff r r).mpr ⟨haliases, rfl⟩)]
  simp only [h.items, Option.bind_some, Json.array?]
  rw [run_bind_of_ok ((Building.run_ofConstruction_eq_ok_iff _ r r _).mpr ⟨hnew, rfl⟩)]

/-- A record fails with its name. -/
theorem importRecord_of_conflict (members : Members) (s : StructType) (items : List Json)
    (h : RecordRead members space s items) (hc : r.checkUnused s.names = .error e) :
    importRecord importType space members r = .error e r := by
  rw [importRecord_of_recordRead importType space r members s items h]
  refine run_bind_of_error ?_
  rw [Building.update, registerStruct, hc]
  rfl

/-- A record fails with its fields. -/
theorem importRecord_of_error (members : Members) (s : StructType) (items : List Json)
    (forms : List FieldForm) (fields : List Field) (h : RecordRead members space s items)
    (hu : r.Unused s.names) (hf : FieldsRead items forms fields)
    (ht : importTypes importType (namespaceOf? s.names.name) (forms.map FieldForm.type)
      (r.appendStruct s) = .error e r₁) :
    importRecord importType space members r = .error e r₁ := by
  have hreg : Building.update (·.registerStruct s) r = .ok r.structs.length (r.appendStruct s) :=
    Building.run_update_eq_ok_iff.mpr ((r.registerStruct_eq_ok_iff _ s _).mpr ⟨hu, rfl, rfl⟩)
  have hfields := importFields_of_error importType _ (r.appendStruct s) r₁ e items forms fields hf
    ht
  rw [importRecord_of_recordRead importType space r members s items h, run_bind_of_ok hreg]
  exact run_bind_of_error hfields

/-- An enum fails with its name. -/
theorem importEnum_of_conflict (members : Members) (enumeration : EnumType)
    (h : EnumRead members space enumeration) (hc : r.checkUnused enumeration.names = .error e) :
    importEnum space members r = .error e r := by
  rcases h.names with ⟨list, hname, haliases, hnames⟩
  have hnew : EnumType.new enumeration.names.name list (text? members "doc") enumeration.symbols
      (text? members "default") = .ok enumeration :=
    enumNew_eq_ok_iff.mpr ⟨hnames, h.documentation, rfl, h.default⟩
  unfold importEnum
  rw [run_bind_of_ok ((Building.run_ofShape_eq_ok_iff r r).mpr ⟨hname, rfl⟩)]
  simp only []
  rw [run_bind_of_ok ((Building.run_ofShape_eq_ok_iff r r).mpr ⟨haliases, rfl⟩),
    run_bind_of_ok ((Building.run_ofShape_eq_ok_iff r r).mpr ⟨h.symbols, rfl⟩),
    run_bind_of_ok ((Building.run_ofConstruction_eq_ok_iff _ r r _).mpr ⟨hnew, rfl⟩)]
  -- All of the enum can be read. It is the registration that fails.
  refine run_bind_of_error ?_
  rw [Building.update, registerEnum, hc]
  rfl

end

/-! ### An import that is refused -/

/-- The import of the documents stops at a name that one of them defines and a type in front
    carries. -/
def Refused (c : Registry) (space : Option String) (docs : List Json) (depth : Nat)
    (r : Registry) : Prop :=
  ∃ name, (∃ doc ∈ docs, Clashes c space doc name) ∧
    ∃ r', importTypes (importTypeAt depth) space docs r = .error (.conflict name .types) r'

section

variable (c : Registry) (space : Option String) (doc : Json) (docs : List Json) (depth : Nat)
  (r : Registry)

theorem refused_of_head (name : String) (r' : Registry) (hc : Clashes c space doc name)
    (h : importTypeAt depth space doc r = .error (.conflict name .types) r') :
    Refused c space (doc :: docs) depth r :=
  ⟨name, ⟨doc, List.mem_cons_self, hc⟩, r',
    importTypes_cons_of_error (importTypeAt depth) space r r' _ doc docs h⟩

theorem refused_of_tail (t : Ty) (r₁ : Registry) (h : importTypeAt depth space doc r = .ok t r₁)
    (hrest : Refused c space docs depth r₁) : Refused c space (doc :: docs) depth r := by
  rcases hrest with ⟨name, ⟨doc', hm, hc⟩, r', hrest⟩
  exact ⟨name, ⟨doc', List.mem_cons_of_mem _ hm, hc⟩, r',
    importTypes_cons_of_ok (importTypeAt depth) space r r' _ doc docs t r₁ h hrest⟩

theorem Refused.error_of_singleton (h : Refused c space [doc] depth r) :
    ∃ name, Clashes c space doc name ∧
      ∃ r', importTypeAt depth space doc r = .error (.conflict name .types) r' := by
  rcases h with ⟨name, ⟨doc', hm, hc⟩, r', h⟩
  rw [List.mem_singleton] at hm
  rw [hm] at hc
  rcases importTypes_cons_eq_error (importTypeAt depth) space r r' _ doc [] h with h |
    ⟨t, r₂, _, hrest⟩
  · exact ⟨name, hc, r', h⟩
  · exact absurd hrest (importTypes_nil_ne_error _ space r₂ r' _)

/-- Names that are free behind others are taken by one that is carried in front. -/
theorem checkUnused_beside (names : Names) (hu : r.Unused names) (name : String)
    (hc : names.Carries name) (hcarried : c.Carried name) : ∃ name', names.Carries name' ∧
      c.Carried name' ∧ (c.beside r).checkUnused names = .error (.conflict name' .types) := by
  have hused : ¬ (c.beside r).Unused names := by
    rw [c.unused_beside_iff r names, c.unused_iff names]
    exact fun h => h.1 name hc hcarried
  rcases (c.beside r).checkUnused_eq_error names hused with ⟨name', h, hc', hh, hcarries, hcheck⟩
  refine ⟨name', hc', ?_, hcheck⟩
  rcases (c.carried_beside_iff r name').mp ⟨h, hh, hcarries⟩ with hfront | ⟨h', hh', hcarries'⟩
  · exact hfront
  · exact absurd hcarries' (hu name' hc' h' hh')

/-- The first document goes through, and another one is refused. -/
theorem refused_of_reading (t : Ty) {r₁ : Registry} (hread : Reading space r [doc] [t] r₁)
    (hd : (c.beside r).Distinct) (hclaims : ¬ Claims c space doc)
    (hclashes : ¬ ∃ name, Clashes c space doc name) (hdepth : doc.depth ≤ depth)
    (hrest : (c.beside r₁).Distinct → Refused c space docs depth (c.beside r₁)) :
    Refused c space (doc :: docs) depth (c.beside r) := by
  -- Neither a clash nor a claim stands in the way of the first document.
  have hbeside : Reading space (c.beside r) [doc] [t.behind c] (c.beside r₁) := by
    refine reading_beside c hread hd ?_ ?_
    · rw [List.forall_mem_singleton]
      exact hclaims
    · rw [List.forall_mem_singleton]
      exact not_exists.mp hclashes
  have hrun := importTypes_of_reading space hbeside depth (by
    rw [itemsDepth_singleton]
    exact hdepth)
  exact refused_of_tail c space doc docs depth (c.beside r) (t.behind c) _
    (importTypes_singleton_eq_ok_iff.mp hrun) (hrest (hbeside.grows.distinct hd))

/-- What is wrapped is refused with what it wraps, which lies one level below. -/
theorem refused_wrapped (members nested : Members)
    (hk : Json.find? "type" members = some (.object nested))
    (hdepth : (Json.object members).depth ≤ depth)
    (h : ∀ depth', (Json.object nested).depth ≤ depth' →
      Refused c space [.object nested] depth' r) :
    Refused c space (.object members :: docs) depth r := by
  rcases exists_level_of_object members depth hdepth with ⟨depth, rfl, hlevel⟩
  rcases (h depth (hlevel "type" _ hk)).error_of_singleton with ⟨name, hc, q, hrun⟩
  refine refused_of_head c space _ docs _ r name q
    ((clashes_wrapped_iff c space members name nested hk).mpr hc) ?_
  rw [importTypeAt, importTypeWith, importObject, hk]
  exact hrun

/-- An enum is refused by its own names. -/
theorem refused_enum (members : Members) (e : EnumType) (h : EnumRead members space e)
    (hu : r.Unused e.names) (name : String) (hc : e.names.Carries name)
    (hcarried : c.Carried name) :
    Refused c space (.object members :: docs) depth (c.beside r) := by
  rcases checkUnused_beside c r e.names hu name hc hcarried with ⟨name', hc', hcarried', hcheck⟩
  rcases importTypeAt_eq_with depth with ⟨imp, himp⟩
  refine refused_of_head c space _ docs depth _ name' (c.beside r)
    ((clashes_enum_iff c space members name' e h).mpr ⟨hc', hcarried'⟩) ?_
  rw [himp, importTypeWith_of_enum imp space members h.kind]
  exact importEnum_of_conflict space (c.beside r) _ members e h hcheck

/-- A record is refused by its own names, or it is registered and one of its fields is
    refused. -/
theorem refused_record (members : Members) (s : StructType) (items : List Json)
    (forms : List FieldForm) (fields : List Field) (h : RecordRead members space s items)
    (hf : FieldsRead items forms fields) (hu : r.Unused s.names)
    (hdepth : (Json.object members).depth ≤ depth)
    (hclashes : ∃ name, Clashes c space (.object members) name)
    (hbody : c.Unused s.names →
      (∃ doc ∈ forms.map FieldForm.type, ∃ name, Clashes c (namespaceOf? s.names.name) doc name) →
      ∀ depth', Json.itemsDepth (forms.map FieldForm.type) ≤ depth' →
        Refused c (namespaceOf? s.names.name) (forms.map FieldForm.type) depth'
          (c.beside (r.appendStruct s))) :
    Refused c space (.object members :: docs) depth (c.beside r) := by
  have hiff := fun name => clashes_record_iff c space members name s items forms fields h hf
  rcases exists_level_of_object members depth hdepth with ⟨depth, rfl, hlevel⟩
  by_cases hown : ∃ name, s.names.Carries name ∧ c.Carried name
  · rcases hown with ⟨name, hc, hcarried⟩
    rcases checkUnused_beside c r s.names hu name hc hcarried with ⟨name', hc', hcarried', hcheck⟩
    refine refused_of_head c space _ docs _ _ name' (c.beside r)
      ((hiff name').mpr (Or.inl ⟨hc', hcarried'⟩)) ?_
    rw [importTypeAt, importTypeWith_of_record _ space members h.kind]
    exact importRecord_of_conflict _ space (c.beside r) _ members s items h hcheck
  · -- The record itself gets its place, so the clash is within one of its fields.
    have hc : c.Unused s.names := by
      rw [unused_iff]
      exact fun name hc hcarried => hown ⟨name, hc, hcarried⟩
    have hforms : ∃ doc ∈ forms.map FieldForm.type, ∃ name,
        Clashes c (namespaceOf? s.names.name) doc name := by
      rcases hclashes with ⟨name, hcl⟩
      rcases (hiff name).mp hcl with hself | ⟨form, hform, hcl⟩
      · exact absurd ⟨name, hself⟩ hown
      · exact ⟨_, List.mem_map_of_mem hform, name, hcl⟩
    rcases hbody hc hforms depth (depth_le_of_recordRead h hf hlevel) with
      ⟨name, ⟨doc, hm, hcl⟩, q, hrun⟩
    rcases List.mem_map.mp hm with ⟨form, hform, rfl⟩
    refine refused_of_head c space _ docs _ _ name q
      ((hiff name).mpr (Or.inr ⟨form, hform, hcl⟩)) ?_
    rw [c.beside_appendStruct r s h.unassigned] at hrun
    rw [importTypeAt, importTypeWith_of_record _ space members h.kind]
    exact importRecord_of_error _ space (c.beside r) q _ members s items forms fields h
      ((c.unused_beside_iff r s.names).mpr ⟨hc, hu⟩) hf hrun

end

/-- What is shown of a part of a reading: behind other types of which one has a name that is
    defined, the documents are refused. -/
def RefusedBeside (c : Registry) (space : Option String) (r : Registry) (docs : List Json) : Prop :=
  (c.beside r).Distinct → (∀ doc ∈ docs, ¬ Claims c space doc) →
    (∃ doc ∈ docs, ∃ name, Clashes c space doc name) →
    ∀ depth, Json.itemsDepth docs ≤ depth → Refused c space docs depth (c.beside r)

namespace RefusedBeside

variable {c r r₁ : Registry} {space : Option String} {doc : Json} {docs : List Json} {t : Ty}

/-- The first document is refused if it clashes. If it does not, it is read as it is without the
    types in front, and another one is refused. -/
theorem cons (hread : Reading space r [doc] [t] r₁) (ih : RefusedBeside c space r₁ docs)
    (hhead : (c.beside r).Distinct → ¬ Claims c space doc → (∃ name, Clashes c space doc name) →
      ∀ depth, doc.depth ≤ depth → Refused c space (doc :: docs) depth (c.beside r)) :
    RefusedBeside c space r (doc :: docs) := by
  intro hd hclaims hclashes depth hdepth
  rw [List.forall_mem_cons] at hclaims
  rcases (itemsDepth_cons_le_iff _ _ depth).mp hdepth with ⟨hdoc, hdocs⟩
  by_cases hc : ∃ name, Clashes c space doc name
  · exact hhead hd hclaims.1 hc depth hdoc
  · refine refused_of_reading c space doc docs depth r t hread hd hclaims.1 hc hdoc fun hd' => ?_
    refine ih hd' hclaims.2 ?_ depth hdocs
    -- Some document clashes, and it is not the first.
    rcases hclashes with ⟨doc', hm, hc'⟩
    rcases List.mem_cons.mp hm with rfl | hm
    · exact absurd hc' hc
    · exact ⟨doc', hm, hc'⟩

/-- What is wrapped clashes and claims as it would by itself. -/
theorem wrapped {members nested : Members} (hk : Json.find? "type" members = some (.object nested))
    (h : Reading space r [.object nested] [t] r₁) (ihn : RefusedBeside c space r [.object nested])
    (ihr : RefusedBeside c space r₁ docs) :
    RefusedBeside c space r (.object members :: docs) := by
  refine ihr.cons (.wrapped _ members nested t hk h (.nil _ _))
    fun hd hclaims hhead depth hdoc => ?_
  refine refused_wrapped c _ _ depth _ members nested hk hdoc fun depth' hnested => ?_
  have hsome : ∃ name, Clashes c space (.object nested) name := by
    rcases hhead with ⟨name, hc⟩
    exact ⟨name, (clashes_wrapped_iff c _ members name nested hk).mp hc⟩
  have hnone := not_claims_wrapped c _ members nested hk hclaims
  refine ihn hd (List.forall_mem_singleton.mpr hnone) ⟨_, List.mem_singleton_self _, hsome⟩
    depth' ?_
  rw [itemsDepth_singleton]
  exact hnested

/-- The names of an enum are met where it is defined. -/
theorem enumeration {members : Members} {e : EnumType} (h : EnumRead members space e)
    (hu : r.Unused e.names) (ih : RefusedBeside c space (r.appendEnum e) docs) :
    RefusedBeside c space r (.object members :: docs) := by
  refine ih.cons (.enumeration members e h hu (.nil _ _)) fun _ _ hhead depth _ => ?_
  rcases hhead with ⟨name, hc⟩
  rw [clashes_enum_iff c _ members name e h] at hc
  exact refused_enum c _ _ depth _ members e h hu name hc.1 hc.2

/-- The names of a record are met before those within its fields. -/
theorem struct {r₂ : Registry} {members : Members} {s : StructType} {items : List Json}
    {forms : List FieldForm} {fields : List Field} (h : RecordRead members space s items)
    (hu : r.Unused s.names) (hf : FieldsRead items forms fields)
    (body : Reading (namespaceOf? s.names.name) (r.appendStruct s) (forms.map FieldForm.type)
      (fields.map Field.type) r₁)
    (hs : r₁.setFields r.structs.length fields = .ok r₂)
    (ihb : RefusedBeside c (namespaceOf? s.names.name) (r.appendStruct s)
      (forms.map FieldForm.type))
    (ihr : RefusedBeside c space r₂ docs) :
    RefusedBeside c space r (.object members :: docs) := by
  refine ihr.cons (.struct _ _ members s items forms fields h hu hf body hs (.nil _ _))
    fun hd hclaims hhead depth hdoc => ?_
  refine refused_record c _ _ depth _ members s items forms fields h hf hu hdoc hhead
    fun hc hforms depth' hbody => ?_
  -- The record itself is registered here, so its own names are free in front too.
  have hd' : (c.beside (r.appendStruct s)).Distinct := by
    rw [c.beside_appendStruct _ s h.unassigned]
    exact distinct_appendStruct _ s ((c.unused_beside_iff _ s.names).mpr ⟨hc, hu⟩) hd
  exact ihb hd' (not_claims_forms c _ members s items forms fields h hf hclaims) hforms depth' hbody

end RefusedBeside

end Avro

end Schemata
