import Schemata.Proofs.Avro.Documents
import Schemata.Proofs.Runs
import Schemata.Proofs.Registry.Operations

/-!
# The Reading of an Import

The order in which an import meets the parts of a document, as a relation.

It is to imports what `Walk` is to exports. A list of documents is read as a
list of types, in order, and a registry grows on the way. An import counts
down a depth and threads the registry through a computation that may stop
half-way; a `Reading` has no depth, and it is only there if the import goes
through. One induction over a reading goes through the types of a record's
fields and then on to what follows.

`importSchema_eq_ok_iff` says that readings are exactly the imports that
succeed. The depth suffices because the type of a field is
written somewhere within the field.

## Main definitions

* `Avro.Reading`: A list of documents and the types that they are read as.
* `Avro.importTypes`: The types of some documents, one after another.

## Theorems

* `Avro.importTypeAt_extends`: What is imported extends a reading.
* `Avro.importTypes_of_reading`: A reading is imported, given depth enough.
* `importSchema_eq_ok_iff`: An import succeeds exactly along a reading.
-/

namespace Schemata

namespace Avro

/-! ### The reading -/

/-- The documents are read one after another as the types, within a namespace, and a
    registry grows. -/
inductive Reading : Option String → Registry → List Json → List Ty → Registry → Prop
  | nil (space : Option String) (r : Registry) : Reading space r [] [] r
  | leaf {space : Option String} {r r' : Registry} {doc : Json} {docs : List Json} {ts : List Ty}
      (t : Ty) (h : LeafRead doc t) (rest : Reading space r docs ts r') :
      Reading space r (doc :: docs) (t :: ts) r'
  | reference {space : Option String} {r r' : Registry} {doc : Json} {docs : List Json}
      {ts : List Ty} (name : String) (handle : Handle) (hn : NameRead doc name)
      (hp : ¬ IsPrimitive name) (hr : resolve r name space = .ok handle)
      (rest : Reading space r docs ts r') :
      Reading space r (doc :: docs) (.named handle :: ts) r'
  | wrapped {space : Option String} {r r' : Registry} {docs : List Json} {ts : List Ty}
      (r₁ : Registry) (members nested : Members) (t : Ty)
      (hk : Json.find? "type" members = some (.object nested))
      (h : Reading space r [.object nested] [t] r₁) (rest : Reading space r₁ docs ts r') :
      Reading space r (.object members :: docs) (t :: ts) r'
  | enumeration {space : Option String} {r r' : Registry} {docs : List Json} {ts : List Ty}
      (members : Members) (e : EnumType) (h : EnumRead members space e) (hu : r.Unused e.names)
      (rest : Reading space (r.appendEnum e) docs ts r') :
      Reading space r (.object members :: docs) (.named (.enumeration r.enums.length) :: ts) r'
  | struct {space : Option String} {r r' : Registry} {docs : List Json} {ts : List Ty}
      (r₁ r₂ : Registry) (members : Members) (s : StructType) (items : List Json)
      (forms : List FieldForm) (fields : List Field) (h : RecordRead members space s items)
      (hu : r.Unused s.names) (hf : FieldsRead items forms fields)
      (body : Reading (namespaceOf? s.names.name) (r.appendStruct s) (forms.map FieldForm.type)
        (fields.map Field.type) r₁)
      (hs : r₁.setFields r.structs.length fields = .ok r₂) (rest : Reading space r₂ docs ts r') :
      Reading space r (.object members :: docs) (.named (.struct r.structs.length) :: ts) r'

/-! ### Steps of an import -/

theorem importName_eq_ok_iff (space : Option String) (name : String) (r r' : Registry) (t : Ty) :
    importName space name r = .ok t r' ↔ r = r' ∧ (primitive? name = some t ∨
      ¬ IsPrimitive name ∧ ∃ handle, resolve r name space = .ok handle ∧ t = .named handle) := by
  unfold importName IsPrimitive
  rcases hp : primitive? name with _ | type
  · simp only [Option.isSome_none, Bool.false_eq_true, false_or, reduceCtorEq]
    -- Null is a primitive without a type, and is refused.
    by_cases hn : name = "null"
    · rw [if_pos hn]
      exact ⟨fun h => absurd h run_throw_ne_ok, fun h => absurd hn h.2.1⟩
    · rw [if_neg hn, run_bind_of_ok (run_get r)]
      simp only [run_bind_eq_ok_iff, run_ofExcept_eq_ok_iff, run_pure_eq_ok_iff]
      constructor
      · rintro ⟨handle, _, ⟨hres, rfl⟩, rfl, rfl⟩
        exact ⟨rfl, hn, handle, hres, rfl⟩
      · rintro ⟨rfl, _, handle, hres, rfl⟩
        exact ⟨handle, r, ⟨hres, rfl⟩, rfl, rfl⟩
  · simp only [run_pure_eq_ok_iff, Option.some.injEq, Option.isSome_some, true_or,
      not_true_eq_false, false_and, or_false]
    exact And.comm

theorem importDecimal_eq_ok_iff (members : Members) (r r' : Registry) (t : Ty) :
    importDecimal members r = .ok t r' ↔ r = r' ∧ ∃ precision scale type,
      number? members "precision" = .ok (some precision) ∧
      number? members "scale" = .ok scale ∧
      DecimalType.new precision (scale.getD 0) = .ok type ∧ t = .decimal type := by
  unfold importDecimal
  simp only [run_bind_eq_ok_iff, Building.run_ofShape_eq_ok_iff]
  constructor
  · rintro ⟨precision, _, ⟨hp, rfl⟩, h⟩
    -- A decimal cannot do without a precision.
    cases precision with
    | none => exact absurd h run_throw_ne_ok
    | some precision =>
        simp only [run_bind_eq_ok_iff, Building.run_ofShape_eq_ok_iff,
          Building.run_ofConstruction_eq_ok_iff, run_pure_eq_ok_iff] at h
        rcases h with ⟨scale, _, ⟨hs, rfl⟩, type, _, ⟨ht, rfl⟩, rfl, rfl⟩
        exact ⟨rfl, precision, scale, type, hp, hs, ht, rfl⟩
  · rintro ⟨rfl, precision, scale, type, hp, hs, ht, rfl⟩
    refine ⟨some precision, r, ⟨hp, rfl⟩, ?_⟩
    simp only [run_bind_eq_ok_iff, Building.run_ofShape_eq_ok_iff,
      Building.run_ofConstruction_eq_ok_iff, run_pure_eq_ok_iff]
    exact ⟨scale, r, ⟨hs, rfl⟩, type, r, ⟨ht, rfl⟩, rfl, rfl⟩

/-- A logical type that does not count is overlooked. -/
theorem importLogical_of_not_hasLogical (space : Option String) (kind : String)
    (members : Members) (h : ¬ HasLogical members kind) :
    importLogical space kind members = importName space kind := by
  unfold importLogical
  rcases hl : text? members "logicalType" with _ | logical
  · rfl
  · have hd : ¬ (kind = "bytes" ∧ logical = "decimal") :=
      fun hd => h ⟨logical, hl, Or.inl hd⟩
    have hk : logical? kind logical = none := by
      rw [← Option.not_isSome_iff_eq_none]
      exact fun hk => h ⟨logical, hl, Or.inr hk⟩
    simp only [if_neg hd, hk]

theorem importLogical_decimal (space : Option String) (members : Members)
    (hl : text? members "logicalType" = some "decimal") :
    importLogical space "bytes" members = importDecimal members := by
  unfold importLogical
  rw [hl]
  exact if_pos ⟨rfl, rfl⟩

theorem importLogical_logical (space : Option String) (kind logical : String) {members : Members}
    {scalar : ScalarKind} (hl : text? members "logicalType" = some logical)
    (hk : logical? kind logical = some scalar) :
    importLogical space kind members = pure (.scalar scalar) := by
  have hd : ¬ (kind = "bytes" ∧ logical = "decimal") := by
    rintro ⟨rfl, rfl⟩
    rw [show logical? "bytes" "decimal" = none by decide] at hk
    exact nomatch hk
  unfold importLogical
  rw [hl]
  simp only [if_neg hd, hk]

theorem importEnum_eq_ok_iff {enclosing : Option String} {members : Members} {r r' : Registry}
    {t : Ty} (hk : Json.find? "type" members = some (.string "enum")) :
    importEnum enclosing members r = .ok t r' ↔ ∃ e, EnumRead members enclosing e ∧
      r.Unused e.names ∧ r' = r.appendEnum e ∧ t = .named (.enumeration r.enums.length) := by
  unfold importEnum
  simp only [run_bind_eq_ok_iff, Building.run_ofShape_eq_ok_iff,
    Building.run_ofConstruction_eq_ok_iff, Building.run_update_eq_ok_iff, run_pure_eq_ok_iff]
  constructor
  · rintro ⟨⟨name, space⟩, _, ⟨hname, rfl⟩, list, _, ⟨haliases, rfl⟩, symbols, _, ⟨hs, rfl⟩,
      e, _, ⟨hnew, rfl⟩, i, _, hreg, rfl, rfl⟩
    -- The enum that is made keeps what it is made of, so it is the one that is read.
    rcases enumNew_eq_ok_iff.mp hnew with ⟨hnames, hdoc, rfl, hdefault⟩
    rcases (r.registerEnum_eq_ok_iff _ e i).mp hreg with ⟨hu, rfl, rfl⟩
    exact ⟨e, ⟨hk, namesRead_iff.mpr ⟨name, space, list, hname, haliases, hnames⟩, hdoc,
      hs, hdefault⟩, hu, rfl, rfl⟩
  · rintro ⟨e, he, hu, rfl, rfl⟩
    rcases namesRead_iff.mp he.names with ⟨name, space, list, hname, haliases, hnames⟩
    refine ⟨(name, space), r, ⟨hname, rfl⟩, list, r, ⟨haliases, rfl⟩, e.symbols, r,
      ⟨he.symbols, rfl⟩, e, r, ⟨?_, rfl⟩, r.enums.length, r.appendEnum e, ?_, rfl, rfl⟩
    · exact enumNew_eq_ok_iff.mpr ⟨hnames, he.documentation, rfl, he.default⟩
    · exact (r.registerEnum_eq_ok_iff _ e _).mpr ⟨hu, rfl, rfl⟩

/-! ### Fields -/

/-- The types of some documents, one after another, with the import of each. -/
def importTypes (importType : Option String → Json → Building Ty) (space : Option String) :
    List Json → Building (List Ty)
  | [] => pure []
  | doc :: docs => do
    let t ← importType space doc
    let ts ← importTypes importType space docs
    return t :: ts

theorem importTypes_cons_eq_ok_iff {importType : Option String → Json → Building Ty}
    {space : Option String} {doc : Json} {docs : List Json} {ts : List Ty} {r r' : Registry} :
    importTypes importType space (doc :: docs) r = .ok ts r' ↔
      ∃ t rest r₁, importType space doc r = .ok t r₁ ∧
        importTypes importType space docs r₁ = .ok rest r' ∧ ts = t :: rest := by
  rw [importTypes]
  simp only [run_bind_eq_ok_iff, run_pure_eq_ok_iff]
  constructor
  · rintro ⟨t, r₁, ht, rest, _, hrest, rfl, rfl⟩
    exact ⟨t, rest, r₁, ht, hrest, rfl⟩
  · rintro ⟨t, rest, r₁, ht, hrest, rfl⟩
    exact ⟨t, r₁, ht, rest, r', hrest, rfl, rfl⟩

theorem importTypes_singleton_eq_ok_iff {importType : Option String → Json → Building Ty}
    {space : Option String} {doc : Json} {t : Ty} {r r' : Registry} :
    importTypes importType space [doc] r = .ok [t] r' ↔ importType space doc r = .ok t r' := by
  rw [importTypes_cons_eq_ok_iff]
  simp only [importTypes, run_pure_eq_ok_iff]
  constructor
  · rintro ⟨u, rest, r₁, hu, ⟨rfl, rfl⟩, hcons⟩
    rw [List.singleton_inj.mp hcons]
    exact hu
  · exact fun h => ⟨t, [], r', h, ⟨rfl, rfl⟩, rfl⟩

theorem importField_eq_ok_iff (importType : Option String → Json → Building Ty)
    (space : Option String) (json : Json) (field : Field) (r r' : Registry) :
    importField importType space json r = .ok field r' ↔
      ∃ form, FieldRead json form field ∧ importType space form.type r = .ok field.type r' := by
  constructor
  · intro h
    cases json with
    | object members =>
        rw [importField] at h
        rcases hname : text? members "name" with _ | name
        · rw [hname] at h
          exact absurd h run_throw_ne_ok
        rw [hname] at h
        rcases htype : Json.find? "type" members with _ | schema
        · rw [htype] at h
          exact absurd h run_throw_ne_ok
        rw [htype] at h
        simp only [run_bind_eq_ok_iff, Building.run_ofShape_eq_ok_iff,
          Building.run_ofConstruction_eq_ok_iff, run_pure_eq_ok_iff, withAliases_eq_ok_iff,
          withDefault_eq_ok_iff, fieldForm_eq_ok_iff] at h
        rcases h with ⟨form, _, ⟨hform, rfl⟩, type, _, htype', list, _, ⟨haliases, rfl⟩, _, _,
          ⟨⟨names, hnames, rfl⟩, rfl⟩, _, _, ⟨⟨hsuits, rfl⟩, rfl⟩, rfl, rfl⟩
        have hn : names.name = name := (Names.eq_of_new_eq_ok name list names hnames).1
        refine ⟨form, .mk members schema ?_ htype hform haliases ?_ rfl rfl rfl rfl, htype'⟩
        · rw [hname]
          exact congrArg some hn.symm
        · exact hn ▸ hnames
    | null | bool _ | int _ | float _ | string _ | array _ =>
        exact absurd h run_throw_ne_ok
  · rintro ⟨form, @⟨members, schema, list, _, _, hname, htype, hform, haliases, hnames, hdoc, hcard,
      hdefault, howner⟩, h⟩
    -- The default was taken by the field that is there, so it is taken once more.
    have hsuits : form.default.normal.suits form.cardinality = true := by
      rw [← hcard, ← hdefault]
      exact field.suits
    rw [importField]
    simp only [hname, htype]
    simp only [run_bind_eq_ok_iff, Building.run_ofShape_eq_ok_iff,
      Building.run_ofConstruction_eq_ok_iff, run_pure_eq_ok_iff, withAliases_eq_ok_iff,
      withDefault_eq_ok_iff, fieldForm_eq_ok_iff]
    refine ⟨form, r, ⟨hform, rfl⟩, field.type, r', h, list, r', ⟨haliases, rfl⟩, _, r',
      ⟨⟨field.names, hnames, rfl⟩, rfl⟩, _, r', ⟨⟨hsuits, rfl⟩, rfl⟩, ?_, rfl⟩
    rcases field with ⟨names, documentation, cardinality, type, default, owner, suits⟩
    simp only at hdoc hcard hdefault howner
    simp only [hdoc, hcard, hdefault, howner, Field.new, Field.withDocumentation]

theorem importFields_eq_ok_iff (importType : Option String → Json → Building Ty)
    (space : Option String) (items : List Json) (fields : List Field) (r r' : Registry) :
    importFields importType space items r = .ok fields r' ↔ ∃ forms, FieldsRead items forms fields ∧
      importTypes importType space (forms.map FieldForm.type) r
        = .ok (fields.map Field.type) r' := by
  -- A field is read, and then its type is imported. The form of a field does not look at the
  -- registry, so all forms can be taken first.
  induction items generalizing fields r with
  | nil =>
      rw [importFields, run_pure_eq_ok_iff]
      constructor
      · rintro ⟨rfl, rfl⟩
        exact ⟨[], .nil, rfl⟩
      · rintro ⟨_, ⟨⟩, h⟩
        rw [List.map_nil, importTypes, List.map_nil, run_pure_eq_ok_iff] at h
        exact ⟨rfl, h.2⟩
  | cons item items ih =>
      rw [importFields]
      simp only [run_bind_eq_ok_iff, run_pure_eq_ok_iff, importField_eq_ok_iff]
      constructor
      · rintro ⟨field, r₁, ⟨form, hfield, htype⟩, rest, _, hrest, rfl, rfl⟩
        rcases (ih rest r₁).mp hrest with ⟨forms, hforms, htypes⟩
        refine ⟨form :: forms, .cons item form field items forms rest hfield hforms, ?_⟩
        exact importTypes_cons_eq_ok_iff.mpr ⟨_, _, r₁, htype, htypes, rfl⟩
      · rintro ⟨_, hread, h⟩
        rcases hread with _ | ⟨_, form, field, _, forms, rest, hfield, hforms⟩
        rcases importTypes_cons_eq_ok_iff.mp h with ⟨t, ts, r₁, htype, htypes, he⟩
        rw [List.map_cons, List.cons.injEq] at he
        rw [← he.1] at htype
        rw [← he.2] at htypes
        exact ⟨field, r₁, ⟨form, hfield, htype⟩, rest, r', (ih rest r₁).mpr ⟨forms, hforms, htypes⟩,
          rfl, rfl⟩

theorem importRecord_eq_ok_iff {importType : Option String → Json → Building Ty}
    {enclosing : Option String} {members : Members} {r r' : Registry} {t : Ty}
    (hk : Json.find? "type" members = some (.string "record") ∨
      Json.find? "type" members = some (.string "error")) :
    importRecord importType enclosing members r = .ok t r' ↔
      ∃ s items forms fields r₁, RecordRead members enclosing s items ∧ r.Unused s.names ∧
        FieldsRead items forms fields ∧
        importTypes importType (namespaceOf? s.names.name) (forms.map FieldForm.type)
          (r.appendStruct s) = .ok (fields.map Field.type) r₁ ∧
        r₁.setFields r.structs.length fields = .ok r' ∧ t = .named (.struct r.structs.length) := by
  unfold importRecord
  simp only [run_bind_eq_ok_iff, Building.run_ofShape_eq_ok_iff]
  constructor
  · rintro ⟨⟨name, space⟩, _, ⟨hname, rfl⟩, list, _, ⟨haliases, rfl⟩, h⟩
    rcases hi : (Json.find? "fields" members).bind Json.array? with _ | items
    · rw [hi] at h
      exact absurd h run_throw_ne_ok
    rw [hi] at h
    simp only [run_bind_eq_ok_iff, Building.run_ofConstruction_eq_ok_iff,
      Building.run_update_eq_ok_iff, importFields_eq_ok_iff, run_pure_eq_ok_iff] at h
    rcases h with ⟨s, _, ⟨hnew, rfl⟩, i, _, hreg, fields, r₁, ⟨forms, hforms, htypes⟩, _, _, hset,
      rfl, rfl⟩
    rcases structNew_eq_ok_iff.mp hnew with ⟨hnames, hdoc, hnone⟩
    rcases (r.registerStruct_eq_ok_iff _ s i).mp hreg with ⟨hu, rfl, rfl⟩
    -- The namespace for the fields is that of the full name.
    have hn := (Names.eq_of_new_eq_ok name list s.names hnames).1
    refine ⟨s, items, forms, fields, r₁, ⟨hk, ?_, hdoc, hnone, ?_⟩, hu, hforms, ?_, ?_, rfl⟩
    · exact namesRead_iff.mpr ⟨name, space, list, hname, haliases, hnames⟩
    · rcases hfields : Json.find? "fields" members with _ | value
      · simp only [hfields, Option.bind_none, reduceCtorEq] at hi
      · rw [hfields, Option.bind_some] at hi
        cases value with
        | array values =>
            rw [Json.array?, Option.some.injEq] at hi
            rw [hi]
        | null | bool _ | int _ | float _ | string _ | object _ =>
            simp only [Json.array?, reduceCtorEq] at hi
    · rw [hn, ← fullName_space members enclosing name space hname]
      exact htypes
    · rw [bind_eq_ok_iff] at hset
      rcases hset with ⟨r₂, hs, hset⟩
      rw [pure_eq_ok_iff, Prod.mk.injEq] at hset
      rw [hs, hset.1]
  · rintro ⟨s, items, forms, fields, r₁, h, hu, hforms, htypes, hset, rfl⟩
    rcases namesRead_iff.mp h.names with ⟨name, space, list, hname, haliases, hnames⟩
    have hn := (Names.eq_of_new_eq_ok name list s.names hnames).1
    rw [hn, ← fullName_space members enclosing name space hname] at htypes
    refine ⟨(name, space), r, ⟨hname, rfl⟩, list, r, ⟨haliases, rfl⟩, ?_⟩
    simp only [h.items, Option.bind_some, Json.array?]
    simp only [run_bind_eq_ok_iff, Building.run_ofConstruction_eq_ok_iff,
      Building.run_update_eq_ok_iff, importFields_eq_ok_iff, run_pure_eq_ok_iff]
    refine ⟨s, r, ⟨structNew_eq_ok_iff.mpr ⟨hnames, h.documentation, h.unassigned⟩, rfl⟩,
      r.structs.length, r.appendStruct s, (r.registerStruct_eq_ok_iff _ s _).mpr ⟨hu, rfl, rfl⟩,
      fields, r₁, ⟨forms, hforms, htypes⟩, ⟨⟩, r', ?_, rfl, rfl⟩
    rw [hset]
    rfl

/-! ### What is imported is a reading -/

/-- A union is no type outside of a field. -/
theorem not_reading_array (space : Option String) (r r' : Registry) (branches docs : List Json)
    (ts : List Ty) : ¬ Reading space r (.array branches :: docs) ts r' := by
  intro h
  cases h with
  | leaf _ hleaf => cases hleaf with | primitive _ hn => cases hn
  | reference _ _ hn => cases hn

/-- Each type that the import gives extends a reading to the front. -/
def Extends (importType : Option String → Json → Building Ty) : Prop :=
  ∀ space doc t r r₁, importType space doc r = .ok t r₁ →
    ∀ docs ts r', Reading space r₁ docs ts r' → Reading space r (doc :: docs) (t :: ts) r'

theorem reading_of_importTypes_of_extends (importType : Option String → Json → Building Ty)
    (hext : Extends importType) {space : Option String} {docs : List Json} {ts : List Ty}
    {r r' : Registry} (h : importTypes importType space docs r = .ok ts r') :
    Reading space r docs ts r' := by
  induction docs generalizing ts r with
  | nil =>
      rw [importTypes, run_pure_eq_ok_iff] at h
      rw [← h.1, h.2]
      exact .nil _ _
  | cons doc docs ih =>
      rcases importTypes_cons_eq_ok_iff.mp h with ⟨t, rest, r₁, ht, hrest, rfl⟩
      exact hext space doc t r r₁ ht docs rest r' (ih hrest)

theorem reading_of_importName (space : Option String) (doc : Json) (name : String) (t : Ty)
    (r r₁ : Registry) (hn : NameRead doc name) (h : importName space name r = .ok t r₁)
    (docs : List Json) (ts : List Ty) (r' : Registry) (rest : Reading space r₁ docs ts r') :
    Reading space r (doc :: docs) (t :: ts) r' := by
  rcases (importName_eq_ok_iff space name r r₁ t).mp h with ⟨rfl, hp | ⟨hp, handle, hr, rfl⟩⟩
  · exact .leaf _ (.primitive name hn hp) rest
  · exact .reference name handle hn hp hr rest

theorem reading_of_importLogical (space : Option String) {members : Members} (kind : String)
    (t : Ty) (r r₁ : Registry) (hk : Json.find? "type" members = some (.string kind))
    (hd : kind ∉ definitionKinds) (h : importLogical space kind members r = .ok t r₁)
    {docs : List Json} (ts : List Ty) (r' : Registry) (rest : Reading space r₁ docs ts r') :
    Reading space r (.object members :: docs) (t :: ts) r' := by
  -- A logical type counts only if it goes with the kind. Otherwise the word stands for itself.
  by_cases hl : HasLogical members kind
  · rcases hl with ⟨logical, hl, ⟨rfl, rfl⟩ | hsome⟩
    · rw [importLogical_decimal space members hl] at h
      rcases (importDecimal_eq_ok_iff members r r₁ t).mp h with
        ⟨rfl, precision, scale, type, hp, hs, ht, rfl⟩
      exact .leaf _ (.decimal members precision scale type hk hl hp hs ht) rest
    · rcases Option.isSome_iff_exists.mp hsome with ⟨scalar, ht⟩
      rw [importLogical_logical space kind logical hl ht, run_pure_eq_ok_iff] at h
      rw [← h.1]
      exact .leaf _ (.logical kind logical hk hl ht) (h.2 ▸ rest)
  · rw [importLogical_of_not_hasLogical space kind members hl] at h
    exact reading_of_importName space _ kind t r r₁ (.object members kind hk hd hl) h docs ts r'
      rest

theorem reading_of_importTypeWith (importType : Option String → Json → Building Ty)
    (hext : Extends importType) : Extends (importTypeWith importType) := by
  intro space doc t r r₁ h docs ts r' rest
  cases doc with
  | string name => exact reading_of_importName space _ name t r r₁ (.text name) h docs ts r' rest
  | object members =>
      rw [importTypeWith, importObject] at h
      rcases hk : Json.find? "type" members with _ | type
      · rw [hk] at h
        exact absurd h run_throw_ne_ok
      rw [hk] at h
      cases type with
      | string kind =>
          simp only [] at h
          -- Definitions come first, then what no type is made of, and names last.
          by_cases hrecord : kind = "record" ∨ kind = "error"
          · rw [if_pos hrecord] at h
            have hk' : Json.find? "type" members = some (.string "record") ∨
                Json.find? "type" members = some (.string "error") := by
              rw [hk]
              rcases hrecord with rfl | rfl
              · exact Or.inl rfl
              · exact Or.inr rfl
            rcases (importRecord_eq_ok_iff hk').mp h with
              ⟨s, items, forms, fields, r₂, hs, hu, hf, htypes, hset, rfl⟩
            have body := reading_of_importTypes_of_extends importType hext htypes
            exact .struct _ _ members s items forms fields hs hu hf body hset rest
          rw [if_neg hrecord] at h
          by_cases henum : kind = "enum"
          · rw [if_pos henum] at h
            rw [henum] at hk
            rcases (importEnum_eq_ok_iff hk).mp h with ⟨e, he, hu, rfl, rfl⟩
            exact .enumeration members e he hu rest
          rw [if_neg henum] at h
          by_cases hfixed : kind = "fixed"
          · rw [if_pos hfixed] at h
            exact absurd h run_throw_ne_ok
          rw [if_neg hfixed] at h
          by_cases hmap : kind = "map"
          · rw [if_pos hmap] at h
            exact absurd h run_throw_ne_ok
          rw [if_neg hmap] at h
          by_cases harray : kind = "array"
          · rw [if_pos harray] at h
            exact absurd h run_throw_ne_ok
          rw [if_neg harray] at h
          have hd : kind ∉ definitionKinds := by
            simp only [definitionKinds, List.mem_cons, List.not_mem_nil, or_false, not_or]
            rw [not_or] at hrecord
            exact ⟨hrecord.1, hrecord.2, henum, hfixed, hmap, harray⟩
          exact reading_of_importLogical space kind t r r₁ hk hd h ts r' rest
      | object nested =>
          exact .wrapped _ members nested t hk (hext space _ t r r₁ h [] [] r₁ (.nil _ _)) rest
      | array nested =>
          exact absurd (hext space _ t r r₁ h docs ts r' rest) (not_reading_array _ _ _ _ _ _)
      | null | bool _ | int _ | float _ => exact absurd h run_throw_ne_ok
  | null | bool _ | int _ | float _ | array _ => exact absurd h run_throw_ne_ok

/-- What is imported is a reading. -/
theorem importTypeAt_extends (depth : Nat) : Extends (importTypeAt depth) := by
  induction depth with
  | zero =>
      refine reading_of_importTypeWith _ fun space doc t r r₁ h => ?_
      exact absurd h run_throw_ne_ok
  | succ depth ih => exact reading_of_importTypeWith _ ih

/-! ### A reading is imported -/

theorem importTypeAt_eq_with (depth : Nat) :
    ∃ importType, importTypeAt depth = importTypeWith importType := by
  cases depth with
  | zero => exact ⟨_, rfl⟩
  | succ depth => exact ⟨_, rfl⟩

/-- An object that defines nothing is a name, perhaps with a logical type. -/
theorem importObject_of_not_definition (importType : Option String → Json → Building Ty)
    (space : Option String) {members : Members} (kind : String)
    (hk : Json.find? "type" members = some (.string kind)) (hd : kind ∉ definitionKinds) :
    importObject importType space members = importLogical space kind members := by
  simp only [definitionKinds, List.mem_cons, List.not_mem_nil, or_false, not_or] at hd
  rcases hd with ⟨hrecord, herror, henum, hfixed, hmap, harray⟩
  rw [importObject, hk]
  simp only [hrecord, herror, henum, hfixed, hmap, harray, or_self, if_false]

/-- A document that comes down to a name is imported as the name. -/
theorem importTypeWith_of_nameRead (importType : Option String → Json → Building Ty)
    (space : Option String) {doc : Json} (name : String) (h : NameRead doc name) :
    importTypeWith importType space doc = importName space name := by
  cases h with
  | text name => rfl
  | object members kind hk hd hl =>
      rw [importTypeWith, importObject_of_not_definition importType space name hk hd]
      exact importLogical_of_not_hasLogical space name members hl

theorem importTypeWith_of_leafRead (importType : Option String → Json → Building Ty)
    (space : Option String) {doc : Json} (t : Ty) (h : LeafRead doc t) (r : Registry) :
    importTypeWith importType space doc r = .ok t r := by
  -- None of the three is a definition, so no reader of definitions is asked.
  cases h with
  | primitive name hn hp =>
      rw [importTypeWith_of_nameRead importType space name hn, importName_eq_ok_iff]
      exact ⟨rfl, Or.inl hp⟩
  | decimal members precision scale type hk hl hp hs ht =>
      rw [importTypeWith, importObject_of_not_definition importType space _ hk (by decide),
        importLogical_decimal space members hl, importDecimal_eq_ok_iff]
      exact ⟨rfl, precision, scale, type, hp, hs, ht, rfl⟩
  | logical kind logical hk hl ht =>
      rw [importTypeWith, importObject_of_not_definition importType space kind hk
        (not_definition_of_logical kind logical ht),
        importLogical_logical space kind logical hl ht]
      exact run_pure _ _

theorem importTypeWith_of_enum (importType : Option String → Json → Building Ty)
    (space : Option String) (members : Members)
    (hk : Json.find? "type" members = some (.string "enum")) :
    importTypeWith importType space (.object members) = importEnum space members := by
  rw [importTypeWith, importObject, hk]
  rfl

theorem importTypeWith_of_record (importType : Option String → Json → Building Ty)
    (space : Option String) (members : Members)
    (hk : Json.find? "type" members = some (.string "record") ∨
      Json.find? "type" members = some (.string "error")) :
    importTypeWith importType space (.object members) = importRecord importType space members := by
  rw [importTypeWith, importObject]
  rcases hk with hk | hk <;> rw [hk] <;> rfl

/-- A reading is imported, if the depth allows for the documents. -/
theorem importTypes_of_reading (space : Option String) {r r' : Registry} {docs : List Json}
    {ts : List Ty} (h : Reading space r docs ts r') :
    ∀ depth, Json.itemsDepth docs ≤ depth →
      importTypes (importTypeAt depth) space docs r = .ok ts r' := by
  -- Every step of the reading has a depth of its own, which is no less than what is left to read.
  induction h with
  | nil => exact fun _ _ => rfl
  | @leaf _ r _ _ _ ts t h rest ih =>
      intro depth hd
      rcases (itemsDepth_cons_le_iff _ _ depth).mp hd with ⟨_, hdocs⟩
      rcases importTypeAt_eq_with depth with ⟨imp, himp⟩
      refine importTypes_cons_eq_ok_iff.mpr ⟨t, ts, r, ?_, ih depth hdocs, rfl⟩
      rw [himp]
      exact importTypeWith_of_leafRead imp _ t h _
  | @reference _ r _ _ _ ts name handle hn hp hr rest ih =>
      intro depth hd
      rcases (itemsDepth_cons_le_iff _ _ depth).mp hd with ⟨_, hdocs⟩
      rcases importTypeAt_eq_with depth with ⟨imp, himp⟩
      refine importTypes_cons_eq_ok_iff.mpr ⟨.named handle, ts, r, ?_, ih depth hdocs, rfl⟩
      rw [himp, importTypeWith_of_nameRead imp _ name hn, importName_eq_ok_iff]
      exact ⟨rfl, Or.inr ⟨hp, handle, hr, rfl⟩⟩
  | @wrapped _ _ _ _ ts r₁ members nested t hk h rest ihn ihr =>
      intro depth hd
      rcases (itemsDepth_cons_le_iff _ _ depth).mp hd with ⟨hdoc, hdocs⟩
      rcases exists_level_of_object members depth hdoc with ⟨depth, rfl, hlevel⟩
      refine importTypes_cons_eq_ok_iff.mpr ⟨t, ts, r₁, ?_, ihr (depth + 1) hdocs, rfl⟩
      -- What is wrapped lies one level below the object around it.
      rw [importTypeAt, importTypeWith, importObject, hk]
      refine importTypes_singleton_eq_ok_iff.mp (ihn depth ?_)
      rw [itemsDepth_singleton]
      exact hlevel "type" _ hk
  | @enumeration _ r _ _ ts members e h hu rest ih =>
      intro depth hd
      rcases (itemsDepth_cons_le_iff _ _ depth).mp hd with ⟨_, hdocs⟩
      rcases importTypeAt_eq_with depth with ⟨imp, himp⟩
      refine importTypes_cons_eq_ok_iff.mpr ⟨_, ts, r.appendEnum e, ?_, ih depth hdocs, rfl⟩
      rw [himp, importTypeWith_of_enum imp _ members h.kind, importEnum_eq_ok_iff h.kind]
      exact ⟨e, h, hu, rfl, rfl⟩
  | @struct _ _ _ _ ts r₁ r₂ members s items forms fields h hu hf body hs rest ihb ihr =>
      intro depth hd
      rcases (itemsDepth_cons_le_iff _ _ depth).mp hd with ⟨hdoc, hdocs⟩
      rcases exists_level_of_object members depth hdoc with ⟨depth, rfl, hlevel⟩
      refine importTypes_cons_eq_ok_iff.mpr ⟨_, ts, r₂, ?_, ihr (depth + 1) hdocs, rfl⟩
      rw [importTypeAt, importTypeWith_of_record _ _ members h.kind,
        importRecord_eq_ok_iff h.kind]
      exact ⟨s, items, forms, fields, r₁, h, hu, hf,
        ihb depth (depth_le_of_recordRead h hf hlevel), hs, rfl⟩

end Avro

/-- An import into a registry succeeds exactly along a reading. -/
theorem importSchema_eq_ok_iff (r r' : Registry) (schema : Json) (t : Ty) :
    r.importSchema schema = .ok t r' ↔ Avro.Reading none r [schema] [t] r' := by
  have hrun : r.importSchema schema = .ok t r' ↔
      Avro.importTypeAt schema.depth none schema r = .ok t r' := by
    unfold Registry.importSchema Avro.importType
    cases h : Avro.importTypeAt schema.depth none schema r with
    | ok u q => exact Iff.rfl
    | error e q => simp only [reduceCtorEq]
  rw [hrun]
  constructor
  · exact fun h => Avro.importTypeAt_extends schema.depth _ _ _ _ _ h [] [] r' (.nil _ _)
  · intro h
    refine Avro.importTypes_singleton_eq_ok_iff.mp (Avro.importTypes_of_reading _ h _ ?_)
    rw [Avro.itemsDepth_singleton]

/-- An import into a registry of its own succeeds exactly along a reading. -/
theorem fromSchema_eq_ok_iff (token : Nat) (schema : Json) (r : Registry) (t : Ty) :
    fromSchema token schema = .ok (r, t) ↔ Avro.Reading none (.new token) [schema] [t] r := by
  rw [← importSchema_eq_ok_iff]
  unfold fromSchema
  cases (Registry.new token).importSchema schema with
  | ok u q =>
      rw [Except.ok.injEq, Prod.mk.injEq, EStateM.Result.ok.injEq]
      exact And.comm
  | error e q => simp only [reduceCtorEq]

end Schemata
