import Schemata.Proofs.Avro.Behind

/-!
# Documents in Their Places

What one document is read as, by where it stands.

A document may stand where a type is expected, as the type of a field, as a
branch of a union, or as the items of a list, and in each of these places some
shapes mean something and others do not. `Reading` speaks of lists of types;
the relations here speak of one document in one place, and of everything that
is read of it at once. A field gives a cardinality, a default and a type. That
some shape has a form but its type is not read, or has no form at all, makes no
difference to what it gives: both give nothing.

For each place there is an equation for each shape. `formGives_single` is the
one to look at: a union of one branch gives what the branch gives, also where
the branch is null, since a field of the null type is not read either.

## Main definitions

* `Avro.counterparts`: The logical types that count.
* `Avro.NoUnion`: A document that is no union.
* `Avro.Leads`: The one branch of a union that is not null.
* `Avro.ItemGives`: What the items of a list are read as.
* `Avro.FormGives`: What the type of a field is read as.
* `Avro.FieldGives`, `Avro.FieldsGive`: What fields are read as.

## Theorems

* `Avro.reading_cons_iff`: Documents are read one by one.
* `Avro.reading_iff_of_nameRead`, `Avro.reading_wrapped_iff`,
  `Avro.reading_record_iff`: Documents of types.
* `Avro.formGives_iff_of_plain`, `Avro.formGives_iff_of_list`,
  `Avro.formGives_single`, `Avro.formGives_union_iff`: Types of fields.
* `Avro.itemGives_iff_of_plain`, `Avro.itemGives_union_iff`: Items of lists.
-/

namespace Schemata

namespace Avro

/-! ### Logical types -/

/-- The primitives and logical types that are types of their own together. -/
def counterparts : List (String × String) :=
  [("bytes", "decimal"), ("int", "date"), ("int", "time-millis"), ("long", "time-micros"),
    ("long", "timestamp-millis"), ("long", "timestamp-micros")]

theorem mem_counterparts_iff (kind logical : String) : (kind, logical) ∈ counterparts ↔
    (kind = "bytes" ∧ logical = "decimal") ∨ (logical? kind logical).isSome := by
  constructor
  · intro h
    simp only [counterparts, List.mem_cons, Prod.mk.injEq, List.not_mem_nil, or_false] at h
    rcases h with h | ⟨rfl, rfl⟩ | ⟨rfl, rfl⟩ | ⟨rfl, rfl⟩ | ⟨rfl, rfl⟩ | ⟨rfl, rfl⟩
    · exact Or.inl h
    all_goals exact Or.inr (by decide)
  · rintro (⟨rfl, rfl⟩ | h)
    · decide
    · unfold logical? at h
      split at h <;> first
        | decide
        | exact nomatch h

/-- A logical type counts if it has a counterpart. -/
theorem hasLogical_iff (members : Members) (kind : String) : HasLogical members kind ↔
    ∃ logical, text? members "logicalType" = some logical ∧ (kind, logical) ∈ counterparts := by
  simp only [HasLogical, mem_counterparts_iff]

/-! ### Shapes -/

/-- The document is no union. -/
def NoUnion (a : Json) : Prop :=
  ∀ branches, a ≠ .array branches

/-- What an object says its type is. -/
theorem text?_type (members : Members) (kind : String)
    (hk : Json.find? "type" members = some (.string kind)) : text? members "type" = some kind := by
  rw [text?, hk, Option.bind_some, Json.string?]

/-- A name is null if it says so, and it is neither a union nor a list. -/
theorem shape_of_nameRead (doc : Json) (name : String) (h : NameRead doc name) :
    isNull doc = (name == "null") ∧ NoUnion doc ∧ arrayItems? doc = none := by
  cases h with
  | text name => exact ⟨rfl, fun _ => Json.noConfusion, rfl⟩
  | object members kind hk hd _ =>
      refine ⟨?_, fun _ => Json.noConfusion, ?_⟩
      · rw [isNull, text?_type members name hk]
        rfl
      · rw [arrayItems?, text?_type members name hk, if_neg]
        rw [Option.some.injEq]
        rintro rfl
        exact hd (by decide)

/-- The null type is a name. -/
theorem nameRead_of_isNull (doc : Json) (h : isNull doc = true) : NameRead doc "null" := by
  cases doc with
  | string name =>
      rw [isNull, beq_iff_eq] at h
      exact h ▸ .text "null"
  | object members =>
      rw [isNull, beq_iff_eq, text?, Option.bind_eq_some_iff] at h
      rcases h with ⟨value, hk, hvalue⟩
      cases value with
      | string kind =>
          rw [Json.string?, Option.some.injEq] at hvalue
          refine .object members "null" (hvalue ▸ hk) (by decide) ?_
          -- No logical type goes with null.
          rw [hasLogical_iff]
          rintro ⟨logical, _, hm⟩
          simp only [counterparts, List.mem_cons, Prod.mk.injEq, String.reduceEq, false_and,
            List.not_mem_nil, or_self] at hm
      | null | bool _ | int _ | float _ | array _ | object _ =>
          simp only [Json.string?, reduceCtorEq] at hvalue
  | null | bool _ | int _ | float _ | array _ => exact absurd h Bool.false_ne_true

/-! ### Types -/

section

variable (space : Option String) (r r' : Registry)

/-- What is read of a list of documents is read of the first and then of the others. -/
theorem reading_cons_iff (doc : Json) (docs : List Json) (ts : List Ty) :
    Reading space r (doc :: docs) ts r' ↔ ∃ t rest r₁, ts = t :: rest ∧
      Reading space r [doc] [t] r₁ ∧ Reading space r₁ docs rest r' := by
  -- Each step reads the first document in full before it comes to the others.
  constructor
  · intro h
    cases h with
    | @leaf _ _ _ _ _ rest t hl hrest =>
        exact ⟨t, rest, r, rfl, .leaf _ hl (.nil _ _), hrest⟩
    | @reference _ _ _ _ _ rest name handle hn hp hr hrest =>
        exact ⟨_, rest, r, rfl, .reference name handle hn hp hr (.nil _ _), hrest⟩
    | @wrapped _ _ _ _ rest r₁ members nested t hk h hrest =>
        exact ⟨t, rest, r₁, rfl, .wrapped _ members nested _ hk h (.nil _ _), hrest⟩
    | @enumeration _ _ _ _ rest members e he hu hrest =>
        exact ⟨_, rest, _, rfl, .enumeration members e he hu (.nil _ _), hrest⟩
    | @struct _ _ _ _ rest r₁ r₂ members s items forms fields hs hu hf body hset hrest =>
        exact ⟨_, rest, r₂, rfl,
          .struct _ _ members s items forms fields hs hu hf body hset (.nil _ _), hrest⟩
  · rintro ⟨t, rest, r₁, rfl, hone, hrest⟩
    cases hone with
    | leaf _ hl hnil =>
        cases hnil
        exact .leaf _ hl hrest
    | reference name handle hn hp hr hnil =>
        cases hnil
        exact .reference name handle hn hp hr hrest
    | wrapped _ members nested _ hk h hnil =>
        cases hnil
        exact .wrapped _ members nested _ hk h hrest
    | enumeration members e he hu hnil =>
        cases hnil
        exact .enumeration members e he hu hrest
    | struct r₁ r₂ members s items forms fields hs hu hf body hset hnil =>
        cases hnil
        exact .struct _ _ members s items forms fields hs hu hf body hset hrest

/-- What is read of one document is imported, at some depth. -/
theorem exists_importTypeWith_of_reading (doc : Json) (t : Ty)
    (h : Reading space r [doc] [t] r') :
    ∃ importType, importTypeWith importType space doc r = .ok t r' := by
  have himp := importTypes_of_reading space h _ (Nat.le_refl _)
  rcases importTypeAt_eq_with (Json.itemsDepth [doc]) with ⟨imp, hdepth⟩
  rw [hdepth] at himp
  exact ⟨imp, importTypes_singleton_eq_ok_iff.mp himp⟩

/-- A name is a primitive type or a reference, however it is written. -/
theorem reading_iff_of_nameRead (doc : Json) (name : String) (t : Ty) (hn : NameRead doc name) :
    Reading space r [doc] [t] r' ↔ r = r' ∧ (primitive? name = some t ∨
      ¬ IsPrimitive name ∧ ∃ handle, resolve r name space = .ok handle ∧ t = .named handle) := by
  constructor
  · intro h
    rcases exists_importTypeWith_of_reading space r r' doc t h with ⟨imp, himp⟩
    rwa [importTypeWith_of_nameRead imp space name hn, importName_eq_ok_iff] at himp
  · rintro ⟨rfl, hp | ⟨hp, handle, hr, rfl⟩⟩
    · exact .leaf _ (.primitive name hn hp) (.nil _ _)
    · exact .reference name handle hn hp hr (.nil _ _)

/-- The null type is not read by itself. -/
theorem not_reading_of_isNull (doc : Json) (t : Ty) (h : isNull doc = true) :
    ¬ Reading space r [doc] [t] r' := by
  rw [reading_iff_of_nameRead space r r' doc "null" t (nameRead_of_isNull doc h)]
  rintro ⟨_, hp | ⟨hp, _⟩⟩
  · rw [show primitive? "null" = none by decide] at hp
    exact nomatch hp
  · exact hp (Or.inr rfl)

/-- A list is not read by itself. -/
theorem not_reading_of_kind_array (members : Members) (t : Ty)
    (hk : text? members "type" = some "array") : ¬ Reading space r [.object members] [t] r' := by
  intro h
  rcases exists_importTypeWith_of_reading space r r' _ t h with ⟨imp, himp⟩
  rw [text?, Option.bind_eq_some_iff] at hk
  rcases hk with ⟨value, hk, hvalue⟩
  cases value with
  | string kind =>
      rw [Json.string?, Option.some.injEq] at hvalue
      rw [importTypeWith, importObject, hk, hvalue] at himp
      exact run_throw_ne_ok himp
  | null | bool _ | int _ | float _ | array _ | object _ =>
      simp only [Json.string?, reduceCtorEq] at hvalue

/-- Neither is a map. -/
theorem not_reading_of_kind_map (members : Members) (t : Ty)
    (hk : Json.find? "type" members = some (.string "map")) :
    ¬ Reading space r [.object members] [t] r' := by
  intro h
  rcases exists_importTypeWith_of_reading space r r' _ t h with ⟨imp, himp⟩
  rw [importTypeWith, importObject, hk] at himp
  exact run_throw_ne_ok himp

theorem LeafRead.kind (members : Members) (t : Ty) (h : LeafRead (.object members) t) :
    ∃ kind, Json.find? "type" members = some (.string kind) ∧ kind ∉ definitionKinds := by
  cases h with
  | primitive name hn hp =>
      cases hn with
      | object _ _ hk hd _ => exact ⟨name, hk, hd⟩
  | decimal _ _ _ _ hk => exact ⟨"bytes", hk, by decide⟩
  | logical kind logical hk _ ht =>
      exact ⟨kind, hk, not_definition_of_logical kind logical ht⟩

theorem NameRead.kind (members : Members) (name : String) (h : NameRead (.object members) name) :
    Json.find? "type" members = some (.string name) ∧ name ∉ definitionKinds := by
  cases h with
  | object _ _ hk hd _ => exact ⟨hk, hd⟩

/-- An object around another one is what is in it. -/
theorem reading_wrapped_iff (members nested : Members) (t : Ty)
    (hk : Json.find? "type" members = some (.object nested)) :
    Reading space r [.object members] [t] r' ↔ Reading space r [.object nested] [t] r' := by
  constructor
  · intro h
    -- Every other step asks for a text where this object has another object.
    have hkind : ∀ kind, Json.find? "type" members ≠ some (.string kind) := by
      intro kind he
      rw [hk, Option.some.injEq] at he
      exact Json.noConfusion he
    cases h with
    | leaf _ hl _ =>
        rcases hl.kind with ⟨kind, he, _⟩
        exact absurd he (hkind kind)
    | reference name _ hn => exact absurd (hn.kind).1 (hkind name)
    | wrapped _ _ nested' _ hk' h hnil =>
        rw [hk, Option.some.injEq, Json.object.injEq] at hk'
        cases hnil
        exact hk' ▸ h
    | enumeration _ e he _ _ => exact absurd he.kind (hkind "enum")
    | struct _ _ _ s items _ _ hs =>
        rcases hs.kind with he | he
        · exact absurd he (hkind "record")
        · exact absurd he (hkind "error")
  · exact fun h => .wrapped _ members nested t hk h (.nil _ _)

/-- An object around a union is not read. -/
theorem not_reading_of_type_array (members : Members) (branches : List Json) (t : Ty)
    (hk : Json.find? "type" members = some (.array branches)) :
    ¬ Reading space r [.object members] [t] r' := by
  intro h
  -- Every step asks for a text or an object where this object has a union.
  have hkind : ∀ kind, Json.find? "type" members ≠ some (.string kind) := by
    intro kind he
    rw [hk, Option.some.injEq] at he
    exact Json.noConfusion he
  cases h with
  | leaf _ hl _ =>
      rcases hl.kind with ⟨kind, he, _⟩
      exact hkind kind he
  | reference name _ hn => exact hkind name (hn.kind).1
  | wrapped _ _ nested _ hk' _ _ =>
      rw [hk, Option.some.injEq] at hk'
      exact Json.noConfusion hk'
  | enumeration _ e he _ _ => exact hkind "enum" he.kind
  | struct _ _ _ s items _ _ hs =>
      exact hs.kind.elim (hkind "record") (hkind "error")

end

/-! ### Unions -/

/-- The branch is the only one of the union that is not null, beside one null at most. -/
def Leads (branches : List Json) (branch : Json) : Prop :=
  ∃ nullable, splitUnion branches = .ok (branch, nullable)

theorem leads_iff (branches : List Json) (branch : Json) : Leads branches branch ↔
    branches.filter (!isNull ·) = [branch] ∧ (branches.filter isNull).length ≤ 1 := by
  simp only [Leads, splitUnion_eq_ok_iff]
  constructor
  · rintro ⟨_, hf, hn, _⟩
    exact ⟨hf, hn⟩
  · rintro ⟨hf, hn⟩
    exact ⟨_, hf, hn, rfl⟩

theorem leads_singleton_iff (branch branch' : Json) :
    Leads [branch] branch' ↔ isNull branch = false ∧ branch = branch' := by
  rw [leads_iff]
  cases hn : isNull branch with
  | true => simp only [hn, Bool.not_true, Bool.false_eq_true, not_false_eq_true,
      List.filter_cons_of_neg, List.filter_nil, List.nil_eq, List.cons_ne_self, reduceCtorEq,
      false_and]
  | false => simp only [hn, Bool.not_false, List.filter_cons_of_pos, List.filter_nil,
      List.cons.injEq, and_true, Bool.false_eq_true, not_false_eq_true, List.filter_cons_of_neg,
      List.length_nil, Nat.zero_le, true_and]

/-! ### Items -/

section

variable (space : Option String) (r r' : Registry) (t : Ty)

/-- The items of a list are read as a type. -/
def ItemGives (items : Json) : Prop :=
  ∃ item, ItemRead items item ∧ Reading space r [item] [t] r'

/-- Items that are no union are read as they are, if they are no list. -/
theorem itemGives_iff_of_plain (items : Json) (hu : NoUnion items) :
    ItemGives space r r' t items ↔
      arrayItems? items = none ∧ Reading space r [items] [t] r' := by
  constructor
  · rintro ⟨item, hi, h⟩
    cases hi with
    | plain _ _ ha => exact ⟨ha, h⟩
    | union branches => exact absurd rfl (hu branches)
  · rintro ⟨ha, h⟩
    exact ⟨items, .plain items hu ha, h⟩

/-- A union of items is read as its branch that is not null, if that is no list. -/
theorem itemGives_union_iff (branches : List Json) :
    ItemGives space r r' t (.array branches) ↔ ∃ branch, Leads branches branch ∧
      arrayItems? branch = none ∧ Reading space r [branch] [t] r' := by
  constructor
  · rintro ⟨item, hi, h⟩
    cases hi with
    | plain _ hu _ => exact absurd rfl (hu branches)
    | union _ _ nullable hs ha => exact ⟨item, ⟨nullable, hs⟩, ha, h⟩
  · rintro ⟨branch, ⟨nullable, hs⟩, ha, h⟩
    exact ⟨branch, .union branches branch nullable hs ha, h⟩

/-! ### Types of fields -/

/-- The type of a field, with its default, is read as a cardinality, a default and a type. -/
def FormGives (default : Option Json) (schema : Json) (cardinality : Cardinality)
    (value : Default) : Prop :=
  ∃ type, FormRead default schema ⟨cardinality, type, value⟩ ∧ Reading space r [type] [t] r'

variable (default : Option Json) (cardinality : Cardinality) (value : Default)

/-- What is neither a union nor a list is required. -/
theorem formGives_iff_of_plain (schema : Json) (hu : NoUnion schema)
    (ha : arrayItems? schema = none) :
    FormGives space r r' t default schema cardinality value ↔ cardinality = .required ∧
      value = default.elim .none .literal ∧ Reading space r [schema] [t] r' := by
  constructor
  · rintro ⟨type, hf, h⟩
    cases hf with
    | single branch => exact absurd rfl (hu _)
    | plain => exact ⟨rfl, rfl, h⟩
    | list _ items _ ha' _ => exact absurd (ha.symm.trans ha') (Option.some_ne_none items).symm
    | nullable branches => exact absurd rfl (hu branches)
    | nullableList branches => exact absurd rfl (hu branches)
  · rintro ⟨rfl, rfl, h⟩
    exact ⟨schema, .plain schema hu ha, h⟩

/-- A list is repeated, and it is empty where there is no default. -/
theorem formGives_iff_of_list (schema items : Json) (ha : arrayItems? schema = some items) :
    FormGives space r r' t default schema cardinality value ↔ cardinality = .repeated ∧
      value = default.elim .emptyList .literal ∧ ItemGives space r r' t items := by
  -- A list is no union, and no other form has items.
  have hu : ∀ branches, schema ≠ .array branches := by
    rintro branches rfl
    exact nomatch ha
  constructor
  · rintro ⟨type, hf, h⟩
    cases hf with
    | single branch => exact absurd rfl (hu _)
    | plain _ _ ha' => exact absurd (ha'.symm.trans ha) (Option.some_ne_none items).symm
    | list _ items' _ ha' hi =>
        rw [ha, Option.some.injEq] at ha'
        exact ⟨rfl, rfl, type, ha' ▸ hi, h⟩
    | nullable branches => exact absurd rfl (hu branches)
    | nullableList branches => exact absurd rfl (hu branches)
  · rintro ⟨rfl, rfl, item, hi, h⟩
    exact ⟨item, .list schema items item ha hi, h⟩

/-- A field of the null type is not read. -/
theorem not_formGives_of_isNull (schema : Json) (hn : isNull schema = true) :
    ¬ FormGives space r r' t default schema cardinality value := by
  rcases shape_of_nameRead schema "null" (nameRead_of_isNull schema hn) with ⟨_, hu, ha⟩
  rw [formGives_iff_of_plain space r r' t default cardinality value schema hu ha]
  exact fun h => not_reading_of_isNull space r r' schema t hn h.2.2

/-- A union of one branch is that branch. -/
theorem formGives_single (branch : Json) :
    FormGives space r r' t default (.array [branch]) cardinality value ↔
      FormGives space r r' t default branch cardinality value := by
  constructor
  · rintro ⟨type, hf, h⟩
    cases hf with
    | single _ _ _ hf => exact ⟨type, hf, h⟩
    | plain _ hu _ => exact absurd rfl (hu _)
    | list _ _ _ ha _ => exact nomatch ha
    | nullable _ _ _ hb => exact absurd rfl (hb _)
    | nullableList _ _ _ _ _ hb => exact absurd rfl (hb _)
  · -- The branch is not null, since null alone is no form of a field.
    intro h
    have hn : isNull branch = false := by
      rw [← Bool.not_eq_true]
      exact fun hn => not_formGives_of_isNull space r r' t default cardinality value branch hn h
    rcases h with ⟨type, hf, h⟩
    exact ⟨type, .single branch _ hn hf, h⟩

/-- The branch of a union that is not null is optional, or repeated if it is a list. -/
def BranchGives (branch : Json) : Prop :=
  match arrayItems? branch with
  | none => cardinality = .optional ∧ value = default.elim .none .ofLiteral ∧
      Reading space r [branch] [t] r'
  | some items => cardinality = .repeated ∧ value = listDefault default ∧
      ItemGives space r r' t items

/-- A union of other than one branch is its branch that is not null. -/
theorem formGives_union_iff (branches : List Json) (hb : ∀ b, branches ≠ [b]) :
    FormGives space r r' t default (.array branches) cardinality value ↔
      ∃ branch, Leads branches branch ∧
        BranchGives space r r' t default cardinality value branch := by
  unfold BranchGives
  constructor
  · rintro ⟨type, hf, h⟩
    cases hf with
    | single b => exact absurd rfl (hb b)
    | plain _ hu _ => exact absurd rfl (hu branches)
    | list _ _ _ ha _ => exact nomatch ha
    | nullable _ _ nullable _ hs ha =>
        refine ⟨type, ⟨nullable, hs⟩, ?_⟩
        rw [ha]
        exact ⟨rfl, rfl, h⟩
    | nullableList _ branch items _ nullable _ hs ha hi =>
        refine ⟨branch, ⟨nullable, hs⟩, ?_⟩
        rw [ha]
        exact ⟨rfl, rfl, type, hi, h⟩
  · rintro ⟨branch, ⟨nullable, hs⟩, h⟩
    -- The branch beside null may be a list, and then its items are what is read.
    cases ha : arrayItems? branch with
    | none =>
        rw [ha] at h
        rcases h with ⟨rfl, rfl, h⟩
        exact ⟨branch, .nullable branches branch nullable hb hs ha, h⟩
    | some items =>
        rw [ha] at h
        rcases h with ⟨rfl, rfl, item, hi, h⟩
        exact ⟨item, .nullableList branches branch items item nullable hb hs ha hi, h⟩

end

/-! ### Fields -/

/-- A document is read as a field. -/
def FieldGives (space : Option String) (r : Registry) (doc : Json) (field : Field)
    (r' : Registry) : Prop :=
  ∃ form, FieldRead doc form field ∧ Reading space r [form.type] [field.type] r'

/-- A list of documents is read as fields, one by one. -/
def FieldsGive (space : Option String) (r : Registry) (docs : List Json) (fields : List Field)
    (r' : Registry) : Prop :=
  ∃ forms, FieldsRead docs forms fields ∧
    Reading space r (forms.map FieldForm.type) (fields.map Field.type) r'

theorem fieldsGive_cons_iff (space : Option String) (r r' : Registry) (doc : Json)
    (docs : List Json) (fields : List Field) :
    FieldsGive space r (doc :: docs) fields r' ↔ ∃ field rest r₁, fields = field :: rest ∧
      FieldGives space r doc field r₁ ∧ FieldsGive space r₁ docs rest r' := by
  -- Forms go with the fields one by one, and types are read in the order of the fields.
  constructor
  · rintro ⟨forms, hf, h⟩
    cases hf with
    | cons _ form field _ forms rest hfield hrest =>
        rw [List.map_cons, List.map_cons, reading_cons_iff] at h
        rcases h with ⟨t, ts, r₁, he, hone, htail⟩
        rw [List.cons.injEq] at he
        exact ⟨field, rest, r₁, rfl, ⟨form, hfield, he.1 ▸ hone⟩, ⟨forms, hrest, he.2 ▸ htail⟩⟩
  · rintro ⟨field, rest, r₁, rfl, ⟨form, hfield, hone⟩, forms, hrest, htail⟩
    refine ⟨form :: forms, .cons doc form field docs forms rest hfield hrest, ?_⟩
    rw [List.map_cons, List.map_cons, reading_cons_iff]
    exact ⟨field.type, rest.map Field.type, r₁, rfl, hone, htail⟩

/-- A record is read in three steps: it is registered, its fields are read, and it takes them
    in. -/
theorem reading_record_iff (space : Option String) (r r' : Registry) (members : Members) (t : Ty)
    (hk : Json.find? "type" members = some (.string "record") ∨
      Json.find? "type" members = some (.string "error")) :
    Reading space r [.object members] [t] r' ↔ ∃ s items fields r₁,
      RecordRead members space s items ∧ r.Unused s.names ∧
      FieldsGive (namespaceOf? s.names.name) (r.appendStruct s) items fields r₁ ∧
      r₁.setFields r.structs.length fields = .ok r' ∧ t = .named (.struct r.structs.length) := by
  have hkind : ∀ value, Json.find? "type" members = some value → value = .string "record" ∨
      value = .string "error" := by
    intro value hv
    rcases hk with hk | hk <;> rw [hk, Option.some.injEq] at hv
    · exact Or.inl hv.symm
    · exact Or.inr hv.symm
  -- The word says that it is a definition, so no other step reads it.
  have hdef : ∀ kind, Json.find? "type" members = some (.string kind) → kind ∈ definitionKinds := by
    intro kind hv
    rcases hkind _ hv with he | he <;> rw [Json.string.injEq] at he <;> rw [he] <;> decide
  constructor
  · intro h
    cases h with
    | leaf _ hl _ =>
        rcases hl.kind with ⟨kind, he, hd⟩
        exact absurd (hdef kind he) hd
    | reference name _ hn => exact absurd (hdef name hn.kind.1) hn.kind.2
    | wrapped _ _ nested _ hk' _ _ =>
        rcases hkind _ hk' with he | he <;> exact Json.noConfusion he
    | enumeration _ e he _ _ =>
        rcases hkind _ he.kind with he | he <;>
          simp only [Json.string.injEq, String.reduceEq] at he
    | struct r₁ _ _ s items forms fields hs hu hf body hset hnil =>
        cases hnil
        exact ⟨s, items, fields, r₁, hs, hu, ⟨forms, hf, body⟩, hset, rfl⟩
  · rintro ⟨s, items, fields, r₁, hs, hu, ⟨forms, hf, body⟩, hset, rfl⟩
    exact .struct _ _ members s items forms fields hs hu hf body hset (.nil _ _)

end Avro

end Schemata
