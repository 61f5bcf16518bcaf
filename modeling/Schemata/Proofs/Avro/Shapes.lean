import Schemata.Proofs.Avro.Expressible
import Schemata.Proofs.Avro.Places

/-!
# The Shapes of Exports

Exports use few of the forms that the schema language has.

A schema may stand in many places of a document, and in each of them there are
several ways to write one type. `StandsAt` goes to all of these places, also to
those that an export never has, as the values of a map. It keeps track of the
record around a schema and does not enter defaults, which are data and no
schemas. `Canonical` says which of the forms are used where.

What an export is made of is said twice. `Spelled` has one case for each way in
which a type is spelled and does not speak of a registry any more, so that an
induction on it needs no walk. `Occurs` says what stands in the places of a
document that is spelled like this: a type, null in a union, or what the
cardinality and the default of a field make of its type. No place leads from
there to anything else (`occurs_of_standsAt`), and what can occur is in
canonical form, because a field has no default that does not suit it.

## Main definitions

* `Avro.Site`, `Avro.StandsAt`: A schema in its place within a document.
* `Avro.Canonical`: The canonical form of a schema in its place.
* `Avro.Spelled`: A type is spelled as in an export.
* `Avro.Occurs`: What stands in the places of an export.

## Theorems

* `Avro.spelled_of_walk`: What is exported is spelled as in an export.
* `Avro.occurs_of_standsAt`: Nothing else stands anywhere in it.
* `Avro.canonical_of_occurs`: What can occur is in canonical form.
* `toSchema_canonical`: Exports are in canonical form throughout.
-/

namespace Schemata

namespace Avro

/-! ### Places -/

/-- Where a schema stands in a document. -/
inductive Site where
  /-- It is the whole document. -/
  | root
  /-- It is the type of a field with these members. -/
  | field (members : Members)
  /-- It is a branch of a union. -/
  | branch
  /-- It is the items of a list. -/
  | items
  /-- It is the values of a map. -/
  | values
  /-- It is the type of an object and not just a text. -/
  | wrapped

/-- A schema stands in a place of a document. The text is the name of the record that it stands
    in, if it stands in one; of several records the innermost counts. -/
inductive StandsAt (doc : Json) : Option String → Site → Json → Prop
  | root : StandsAt doc none .root doc
  | branch {outer : Option String} (site : Site) {branches : List Json} {s : Json}
      (h : StandsAt doc outer site (.array branches)) (hs : s ∈ branches) :
      StandsAt doc outer .branch s
  | items (outer : Option String) (site : Site) (members : Members) (s : Json)
      (h : StandsAt doc outer site (.object members))
      (hs : Json.find? "items" members = some s) : StandsAt doc outer .items s
  | values (outer : Option String) (site : Site) (members : Members) (s : Json)
      (h : StandsAt doc outer site (.object members))
      (hs : Json.find? "values" members = some s) : StandsAt doc outer .values s
  | wrapped (outer : Option String) (site : Site) (members : Members) (s : Json)
      (h : StandsAt doc outer site (.object members))
      (hs : Json.find? "type" members = some s) (hn : s.string? = none) :
      StandsAt doc outer .wrapped s
  | field (outer : Option String) (site : Site) {members field : Members} {fields : List Json}
      {s : Json} (h : StandsAt doc outer site (.object members))
      (hf : Json.find? "fields" members = some (.array fields)) (hm : .object field ∈ fields)
      (hs : Json.find? "type" field = some s) :
      StandsAt doc (text? members "name") (.field field) s

/-! ### The canonical form -/

/-- The kinds of objects that are not a primitive with a logical type. -/
def compoundKinds : List String :=
  ["record", "enum", "array"]

/-- The definition has no dot in its name, and the record around it has one in its own. -/
def LeavesNamespace (outer : Option String) (members : Members) : Prop :=
  IsDefinition members ∧ (∃ name, text? members "name" = some name ∧ hasDot name = false) ∧
    ∃ record, outer = some record ∧ hasDot record = true

/-- The schema has the canonical form for its place within a record. -/
structure Canonical (outer : Option String) (site : Site) (s : Json) : Prop where
  /-- It is a text, a union or an object. -/
  shape : (∃ name, s = .string name) ∨ (∃ branches, s = .array branches) ∨
    ∃ members, s = .object members
  /-- A union is the type of a field, and it is of one type and null: of null first, where the
      default is missing or null, and of null last, where it is something else. -/
  union : ∀ branches, s = .array branches → ∃ field type, site = .field field ∧ Single type ∧
    ((branches = [.string "null", type] ∧
        (Json.find? "default" field = none ∨ Json.find? "default" field = some .null)) ∨
      (branches = [type, .string "null"] ∧
        ∃ value, Json.find? "default" field = some value ∧ value ≠ .null))
  /-- A list is the type of a field, its items are no union and no list, and its default is a
      list. -/
  list : ∀ members, s = .object members →
    Json.find? "type" members = some (.string "array") → ∃ field items, site = .field field ∧
      Json.find? "items" members = some items ∧ Single items ∧
      ∃ values, Json.find? "default" field = some (.array values)
  /-- Where the default of a field is null, its type is a union that has null first. -/
  nullDefault : ∀ field, site = .field field → Json.find? "default" field = some .null →
    ∃ type, s = .array [.string "null", type]
  /-- An object is a record, an enum, a list, or a primitive with a logical type. -/
  kind : ∀ members, s = .object members →
    ∃ kind, Json.find? "type" members = some (.string kind) ∧
      (kind ∈ compoundKinds ∨ (Json.find? "logicalType" members).isSome)
  /-- A logical type is one that counts, and stands with its primitive. -/
  logical : ∀ members value, s = .object members →
    Json.find? "logicalType" members = some value → ∃ primitive logical,
      Json.find? "type" members = some (.string primitive) ∧ value = .string logical ∧
      (primitive, logical) ∈ counterparts
  /-- A namespace is given where a definition leaves the one that it stands in, and it is
      none. -/
  space : ∀ members, s = .object members →
    (Json.find? "namespace" members = some (.string "") ↔ LeavesNamespace outer members) ∧
      ∀ value, Json.find? "namespace" members = some value → value = .string ""
  /-- A field has no namespace. -/
  fieldSpace : ∀ field, site = .field field → Json.find? "namespace" field = none

/-! ### What exports are made of -/

/-- The type is spelled as in an export, within a record. -/
inductive Spelled : Option String → Json → Prop
  | name (outer : Option String) (name : String) : Spelled outer (.string name)
  | logical (outer : Option String) (primitive logical : String)
      (h : (primitive, logical) ∈ counterparts) : Spelled outer (logicalSchema primitive logical)
  | decimal (outer : Option String) (type : DecimalType) : Spelled outer (decimalSchema type)
  | enumeration (outer : Option String) (e : EnumType) :
      Spelled outer (enumSchema (outer.bind namespaceOf?) e)
  | struct (outer : Option String) (s : StructType) (fields : List Field) (docs : List Json)
      (h : ∀ doc ∈ docs, Spelled (some s.name) doc) :
      Spelled outer (structSchema (outer.bind namespaceOf?) s (fields.zipWith fieldSchema docs))

theorem spelled_scalarSchema (outer : Option String) (kind : ScalarKind) :
    Spelled outer (scalarSchema kind) := by
  cases kind <;> first
    | exact .name outer _
    | exact .logical outer _ _ (by decide)

/-- What is exported is spelled as in an export. -/
theorem spelled_of_walk (r : Registry) (space : Option String) (written written' : Written)
    (ts : List Ty) (es : List Json) (refs : List Reference)
    (h : Walk r space written ts es refs written') (outer : Option String)
    (hs : outer.bind namespaceOf? = space) : ∀ e ∈ es, Spelled outer e := by
  -- The space of the walk is that of the record around, which changes where a struct is entered.
  induction h generalizing outer with
  | nil => exact fun e he => absurd he List.not_mem_nil
  | scalar _ kind _ _ ih =>
      exact List.forall_mem_cons.mpr ⟨spelled_scalarSchema outer kind, ih outer hs⟩
  | decimal _ type _ _ ih =>
      exact List.forall_mem_cons.mpr ⟨.decimal outer type, ih outer hs⟩
  | reference _ _ _ _ _ ih =>
      exact List.forall_mem_cons.mpr ⟨.name outer _, ih outer hs⟩
  | enumeration _ i _ _ _ ih =>
      rw [← hs] at ih ⊢
      exact List.forall_mem_cons.mpr ⟨.enumeration outer _, ih outer rfl⟩
  | struct _ _ _ _ i fields _ _ _ _ _ ihb ihr =>
      rw [← hs] at ihr ⊢
      exact List.forall_mem_cons.mpr
        ⟨.struct outer _ fields _ (ihb (some (r.struct i).name) rfl), ihr outer rfl⟩

/-- The type of a field and its default, given how its type is spelled. -/
inductive FieldShape (doc : Json) : Json → Option Json → Prop
  | plain (default : Option Json) (h : default ≠ some .null) : FieldShape doc doc default
  | nullFirst (default : Option Json) (h : default = none ∨ default = some .null) :
      FieldShape doc (.array [.string "null", doc]) default
  | nullLast (value : Json) (h : value ≠ .null) :
      FieldShape doc (.array [doc, .string "null"]) (some value)
  | list (values : List Json) : FieldShape doc (arraySchema doc) (some (.array values))

/-- A default that suits its field gives one of these shapes. -/
theorem fieldShape_fieldType (doc : Json) (cardinality : Cardinality) (default : Default)
    (h : default.suits cardinality = true) :
    FieldShape doc (fieldType doc cardinality default).1 (fieldType doc cardinality default).2 := by
  -- A literal null suits no cardinality.
  have hnull : ∀ value, default = .literal value → value ≠ .null := by
    rintro value rfl rfl
    exact absurd h Bool.false_ne_true
  cases cardinality with
  | required =>
      cases default with
      | none => exact .plain none (nofun)
      | null => exact absurd h (by decide)
      | literal value => exact .plain _ fun he => hnull value rfl (Option.some.inj he)
  | optional =>
      cases default with
      | none => exact .nullFirst _ (Or.inl rfl)
      | null => exact .nullFirst _ (Or.inr rfl)
      | literal value => exact .nullLast value (hnull value rfl)
  | repeated =>
      cases default with
      | none => exact .list []
      | null => exact absurd h (by decide)
      | literal value =>
          cases value with
          | array values => exact .list values
          | null | bool _ | int _ | float _ | string _ | object _ => exact nomatch h

/-! ### Objects that are spelled -/

/-- The members that a primitive with a logical type can have. -/
def leafKeys : List String :=
  ["logicalType", "precision", "scale", "type"]

/-- The members are those of a primitive with a logical type that counts. -/
def LeafMembers (members : Members) : Prop :=
  ∃ primitive logical, (primitive, logical) ∈ counterparts ∧
    Json.find? "type" members = some (.string primitive) ∧
    Json.find? "logicalType" members = some (.string logical) ∧
    ∀ key ∉ leafKeys, Json.find? key members = none

theorem leafMembers_logical (primitive logical : String)
    (h : (primitive, logical) ∈ counterparts) :
    LeafMembers [("logicalType", .string logical), ("type", .string primitive)] := by
  refine ⟨primitive, logical, h, rfl, rfl, fun key hk => ?_⟩
  simp only [leafKeys, List.mem_cons, List.not_mem_nil, or_false, not_or, eq_comm (a := key)] at hk
  simp only [find?_cons, find?_nil, hk, if_false]

theorem leafMembers_decimal (type : DecimalType) : LeafMembers (decimalMembers type) := by
  refine ⟨"bytes", "decimal", by decide, rfl, rfl, fun key hk => ?_⟩
  simp only [leafKeys, List.mem_cons, List.not_mem_nil, or_false, not_or, eq_comm (a := key)] at hk
  simp only [decimalMembers, find?_cons, find?_nil, hk, if_false]

/-- The members are those of an object that is spelled as in an export: of a primitive with a
    logical type, an enum, or a record whose fields are spelled. -/
def MembersSpelled (outer : Option String) (members : Members) : Prop :=
  LeafMembers members ∨ (∃ e, members = enumMembers (outer.bind namespaceOf?) e) ∨
    ∃ (s : StructType) (fields : List Field) (docs : List Json),
      members = structMembers (outer.bind namespaceOf?) s (fields.zipWith fieldSchema docs) ∧
        ∀ doc ∈ docs, Spelled (some s.name) doc

/-- What is spelled is a text or an object. -/
theorem spelled_cases (outer : Option String) (doc : Json) (h : Spelled outer doc) :
    (∃ name, doc = .string name) ∨ ∃ members, doc = .object members ∧
      MembersSpelled outer members := by
  cases h with
  | name _ name => exact Or.inl ⟨name, rfl⟩
  | logical _ primitive logical hc =>
      exact Or.inr ⟨_, rfl, Or.inl (leafMembers_logical primitive logical hc)⟩
  | decimal _ type =>
      rcases decimalSchema_cases type with ⟨_, h⟩ | ⟨_, h⟩ | ⟨_, _, h⟩
      · exact Or.inl ⟨"int", h⟩
      · exact Or.inl ⟨"long", h⟩
      · exact Or.inr ⟨_, h, Or.inl (leafMembers_decimal type)⟩
  | enumeration _ e => exact Or.inr ⟨_, rfl, Or.inr (Or.inl ⟨e, rfl⟩)⟩
  | struct _ s fields docs hdocs =>
      exact Or.inr ⟨_, rfl, Or.inr (Or.inr ⟨s, fields, docs, rfl, hdocs⟩)⟩

section

variable (outer : Option String) (members : Members)

theorem spelled_object (h : Spelled outer (.object members)) : MembersSpelled outer members := by
  rcases spelled_cases outer _ h with ⟨name, hd⟩ | ⟨members', hd, hm⟩
  · exact absurd hd Json.noConfusion
  · rw [Json.object.injEq] at hd
    exact hd ▸ hm

theorem not_spelled_array (branches : List Json) : ¬ Spelled outer (.array branches) := by
  intro h
  rcases spelled_cases outer _ h with ⟨name, hd⟩ | ⟨members, hd, _⟩
  · exact absurd hd Json.noConfusion
  · exact absurd hd Json.noConfusion

variable (h : Spelled outer (.object members))

include h

/-- The type of an object that is spelled is a text, and it is no list. -/
theorem type_of_spelled :
    ∃ kind, Json.find? "type" members = some (.string kind) ∧ kind ≠ "array" ∧
      (kind ∈ compoundKinds ∨ (Json.find? "logicalType" members).isSome) := by
  rcases spelled_object outer members h with ⟨primitive, logical, hc, ht, hl, _⟩ | ⟨e, rfl⟩ |
    ⟨s, fields, docs, rfl, _⟩
  · refine ⟨primitive, ht, ?_, Or.inr (by rw [hl]; rfl)⟩
    rintro rfl
    exact absurd hc (by simp [counterparts])
  · exact ⟨"enum", by simp [enumMembers, docMember], by decide, Or.inl (by decide)⟩
  · exact ⟨"record", by simp [structMembers, docMember], by decide, Or.inl (by decide)⟩

/-- It has no items and no values. -/
theorem find?_of_spelled (key : String) (hk : key = "items" ∨ key = "values") :
    Json.find? key members = none := by
  rcases spelled_object outer members h with ⟨_, _, _, _, _, hnone⟩ | ⟨e, rfl⟩ |
    ⟨s, fields, docs, rfl, _⟩
  · refine hnone key ?_
    rcases hk with rfl | rfl <;> decide
  · rcases hk with rfl | rfl <;> simp [enumMembers, docMember]
  · rcases hk with rfl | rfl <;> simp [structMembers, docMember]

/-- If it has fields, it is a record. -/
theorem fields_of_spelled (items : List Json)
    (hf : Json.find? "fields" members = some (.array items)) :
    ∃ (s : StructType) (fields : List Field) (docs : List Json),
      text? members "name" = some s.name ∧ items = fields.zipWith fieldSchema docs ∧
        ∀ doc ∈ docs, Spelled (some s.name) doc := by
  rcases spelled_object outer members h with ⟨_, _, _, _, _, hnone⟩ | ⟨e, rfl⟩ |
    ⟨s, fields, docs, rfl, hdocs⟩
  · rw [hnone "fields" (by decide)] at hf
    exact nomatch hf
  · simp [enumMembers, docMember] at hf
  · refine ⟨s, fields, docs, ?_, ?_, hdocs⟩
    · exact text?_eq _ (by simp [structMembers, docMember, StructType.name])
    · simp [structMembers, docMember] at hf
      exact hf.symm

theorem logical_of_spelled (value : Json)
    (hl : Json.find? "logicalType" members = some value) : ∃ primitive logical,
      Json.find? "type" members = some (.string primitive) ∧ value = .string logical ∧
      (primitive, logical) ∈ counterparts := by
  rcases spelled_object outer members h with ⟨primitive, logical, hc, ht, hl', _⟩ | ⟨e, rfl⟩ |
    ⟨s, fields, docs, rfl, hdocs⟩
  · rw [hl', Option.some.injEq] at hl
    exact ⟨primitive, logical, ht, hl.symm, hc⟩
  · simp [enumMembers, docMember] at hl
  · simp [structMembers, docMember] at hl

end

/-- A record around a definition has a dot in its name exactly if it is in a namespace. -/
theorem leavesNamespace_iff (outer : Option String) (members : Members) (name : String)
    (hd : IsDefinition members) (hn : text? members "name" = some name) :
    LeavesNamespace outer members ↔
      hasDot name = false ∧ (outer.bind namespaceOf?).isSome = true := by
  -- A record stands in a namespace exactly if its name has a dot.
  have hspace : (∃ record, outer = some record ∧ hasDot record = true) ↔
      (outer.bind namespaceOf?).isSome = true := by
    cases outer with
    | none =>
        simp only [reduceCtorEq, false_and, exists_false, Option.bind_none, Option.isSome_none,
          Bool.false_eq_true]
    | some record =>
        have hdot := namespaceOf?_eq_none_iff record
        rw [← Option.not_isSome_iff_eq_none, ← Bool.not_eq_true, not_iff_not] at hdot
        simp only [Option.some.injEq, exists_eq_left', Option.bind_some, hdot]
  rw [LeavesNamespace, hspace, hn]
  simp only [hd, true_and, Option.some.injEq, exists_eq_left']

theorem space_of_spelled (outer : Option String) (members : Members)
    (h : Spelled outer (.object members)) :
    (Json.find? "namespace" members = some (.string "") ↔ LeavesNamespace outer members) ∧
      ∀ value, Json.find? "namespace" members = some value → value = .string "" := by
  -- A definition has the attribute under one condition.
  have hdefinition : ∀ name, IsDefinition members → text? members "name" = some name →
      Json.find? "namespace" members =
        Json.find? "namespace" (nameMembers (outer.bind namespaceOf?) name) →
      (Json.find? "namespace" members = some (.string "") ↔ LeavesNamespace outer members) ∧
        ∀ value, Json.find? "namespace" members = some value → value = .string "" := by
    intro name hd hn hspace
    rw [leavesNamespace_iff outer members name hd hn, hspace, find?_nameMembers]
    by_cases hif : hasDot name = false ∧ (outer.bind namespaceOf?).isSome = true
    · rw [if_neg (by decide), if_pos rfl, if_pos hif]
      exact ⟨iff_of_true rfl hif, fun value hv => (Option.some.inj hv).symm⟩
    · rw [if_neg (by decide), if_pos rfl, if_neg hif]
      exact ⟨iff_of_false nofun hif, nofun⟩
  rcases spelled_object outer members h with ⟨primitive, logical, hc, ht, _, hnone⟩ | ⟨e, rfl⟩ |
    ⟨s, fields, docs, rfl, hdocs⟩
  · rw [hnone "namespace" (by decide)]
    refine ⟨iff_of_false nofun ?_, nofun⟩
    rintro ⟨⟨kind, hk, ht'⟩, _⟩
    rw [ht, Option.some.injEq, Json.string.injEq] at ht'
    rw [ht'] at hc
    -- No definition has the kind of a primitive.
    simp only [definingKinds, List.mem_cons, List.not_mem_nil, or_false] at hk
    rcases hk with rfl | rfl | rfl <;> simp [counterparts] at hc
  · refine hdefinition e.name ⟨"enum", by decide, by simp [enumMembers, docMember]⟩
      (text?_eq _ ?_) ?_
    · simp [enumMembers, docMember, EnumType.name]
    · simp [enumMembers, docMember, EnumType.name]
  · refine hdefinition s.name ⟨"record", by decide, by simp [structMembers, docMember]⟩
      (text?_eq _ ?_) ?_
    · simp [structMembers, docMember, StructType.name]
    · simp [structMembers, docMember, StructType.name]

theorem single_of_spelled (outer : Option String) (doc : Json) (h : Spelled outer doc) :
    Single doc := by
  rcases spelled_cases outer doc h with ⟨name, rfl⟩ | ⟨members, rfl, _⟩
  · exact single_string name
  · rcases type_of_spelled outer members h with ⟨kind, hk, hne, _⟩
    exact single_object members kind hk hne

/-! ### What stands in an export -/

theorem mem_zipWith {α β γ : Type} (f : α → β → γ) (as : List α) (bs : List β) (c : γ)
    (h : c ∈ as.zipWith f bs) : ∃ a, ∃ b ∈ bs, c = f a b := by
  induction as generalizing bs with
  | nil => exact absurd h List.not_mem_nil
  | cons a as ih =>
      rcases bs with _ | ⟨b, bs⟩
      · exact absurd h List.not_mem_nil
      rcases List.mem_cons.mp h with hc | hc
      · exact ⟨a, b, List.mem_cons_self, hc⟩
      · rcases ih bs hc with ⟨a', b', hb, hc⟩
        exact ⟨a', b', List.mem_cons_of_mem b hb, hc⟩

/-- What stands in the places of an export. -/
inductive Occurs (outer : Option String) : Site → Json → Prop
  | type (site : Site) (s : Json) (h : Spelled outer s)
      (hsite : ∀ field, site ≠ .field field) : Occurs outer site s
  | null : Occurs outer .branch (.string "null")
  | field (field : Members) (doc s : Json) (h : Spelled outer doc)
      (hs : FieldShape doc s (Json.find? "default" field))
      (hn : Json.find? "namespace" field = none) : Occurs outer (.field field) s

section

variable (outer : Option String) (site : Site)

theorem occurs_branch {branches : List Json} {s : Json} (h : Occurs outer site (.array branches))
    (hs : s ∈ branches) : Occurs outer .branch s := by
  have hpair : ∀ a b : Json, Occurs outer .branch a → Occurs outer .branch b → s ∈ [a, b] →
      Occurs outer .branch s := by
    intro a b ha hb hm
    rcases List.mem_cons.mp hm with rfl | hm
    · exact ha
    · exact List.mem_singleton.mp hm ▸ hb
  -- Only a field that may be null is written as a union, of null and what is spelled.
  generalize hd : Json.array branches = doc at h
  cases h with
  | type _ _ h _ => exact absurd (hd ▸ h) (not_spelled_array outer branches)
  | null => exact absurd hd Json.noConfusion
  | field field doc' _ h hshape _ =>
      have hdoc : Occurs outer .branch doc' := .type .branch doc' h nofun
      generalize Json.find? "default" field = default at hshape
      cases hshape with
      | plain => exact absurd (hd ▸ h) (not_spelled_array outer branches)
      | nullFirst =>
          rw [Json.array.injEq] at hd
          exact hpair _ _ .null hdoc (hd ▸ hs)
      | nullLast =>
          rw [Json.array.injEq] at hd
          exact hpair _ _ hdoc .null (hd ▸ hs)
      | list => exact absurd hd Json.noConfusion

/-- An object in its place is spelled as it stands, or it is a list of what is spelled. -/
theorem occurs_object (members : Members) (h : Occurs outer site (.object members)) :
    Spelled outer (.object members) ∨
      ∃ doc, Spelled outer doc ∧ members = [("items", doc), ("type", .string "array")] := by
  -- Besides what is spelled, the only object that an export makes is the list around a type.
  generalize hd : Json.object members = s at h
  cases h with
  | type _ _ h _ => exact Or.inl (hd ▸ h)
  | null => exact absurd hd Json.noConfusion
  | field field doc _ h hshape _ =>
      generalize Json.find? "default" field = default at hshape
      cases hshape with
      | plain => exact Or.inl (hd ▸ h)
      | nullFirst => exact absurd hd Json.noConfusion
      | nullLast => exact absurd hd Json.noConfusion
      | list =>
          rw [arraySchema, Json.object.injEq] at hd
          exact Or.inr ⟨doc, h, hd⟩

variable (members : Members) (h : Occurs outer site (.object members))

include h

theorem occurs_items (s : Json) (hs : Json.find? "items" members = some s) :
    Occurs outer .items s := by
  rcases occurs_object outer site members h with hm | ⟨doc, hdoc, rfl⟩
  · rw [find?_of_spelled outer members hm "items" (Or.inl rfl)] at hs
    exact nomatch hs
  · rw [find?_cons, if_pos rfl, Option.some.injEq] at hs
    exact hs ▸ .type .items doc hdoc nofun

theorem find?_values_of_occurs : Json.find? "values" members = none := by
  rcases occurs_object outer site members h with hm | ⟨doc, _, rfl⟩
  · exact find?_of_spelled outer members hm "values" (Or.inr rfl)
  · rfl

/-- The type of an object is a text throughout. -/
theorem string?_of_occurs (s : Json) (hs : Json.find? "type" members = some s) :
    s.string? ≠ none := by
  have hkind : ∃ kind, Json.find? "type" members = some (.string kind) := by
    rcases occurs_object outer site members h with hm | ⟨doc, _, rfl⟩
    · rcases type_of_spelled outer members hm with ⟨kind, hk, _⟩
      exact ⟨kind, hk⟩
    · exact ⟨"array", rfl⟩
  rcases hkind with ⟨kind, hk⟩
  rw [hk, Option.some.injEq] at hs
  rw [← hs]
  exact nofun

theorem occurs_field {items : List Json} {field : Members} {s : Json}
    (hf : Json.find? "fields" members = some (.array items)) (hm : .object field ∈ items)
    (hs : Json.find? "type" field = some s) :
    Occurs (text? members "name") (.field field) s := by
  rcases occurs_object outer site members h with hobject | ⟨doc, _, rfl⟩
  · rcases fields_of_spelled outer members hobject items hf with
      ⟨struct, fields, docs, hn, rfl, hdocs⟩
    rw [hn]
    rcases mem_zipWith fieldSchema fields docs _ hm with ⟨own, doc, hdoc, hfield⟩
    rw [fieldSchema_eq, Json.object.injEq] at hfield
    rw [hfield, find?_type_fieldMembers, Option.some.injEq] at hs
    refine .field field doc s (hdocs doc hdoc) ?_ ?_
    · rw [hfield, find?_default_fieldMembers, ← hs]
      exact fieldShape_fieldType doc own.cardinality own.default own.suits
    · simp [hfield, fieldMembers, docMember]
  · -- A list has no fields.
    exact absurd hf.symm (Option.some_ne_none _)

end

/-- Nothing else stands anywhere in an export. -/
theorem occurs_of_standsAt (doc : Json) (h : Spelled none doc) (outer : Option String)
    (site : Site) (s : Json) (hs : StandsAt doc outer site s) : Occurs outer site s := by
  induction hs with
  | root => exact .type .root doc h nofun
  | branch site _ hm ih => exact occurs_branch _ site ih hm
  | items outer site members s _ hi ih => exact occurs_items outer site members ih s hi
  | values outer site members s _ hv ih =>
      rw [find?_values_of_occurs outer site members ih] at hv
      exact nomatch hv
  | wrapped outer site members s _ ht hn ih =>
      exact absurd hn (string?_of_occurs outer site members ih s ht)
  | field outer site _ hf hm ht ih =>
      exact occurs_field outer site _ ih hf hm ht

/-! ### Canonical form -/

section

variable (outer : Option String) (site : Site)

/-- What is spelled is in canonical form, also as the type of a field whose default is not
    null. -/
theorem canonical_of_spelled (s : Json) (h : Spelled outer s)
    (hd : ∀ field, site = .field field → Json.find? "default" field ≠ some .null)
    (hn : ∀ field, site = .field field → Json.find? "namespace" field = none) :
    Canonical outer site s where
  shape := by
    rcases spelled_cases outer s h with hname | ⟨members, hm, _⟩
    · exact Or.inl hname
    · exact Or.inr (Or.inr ⟨members, hm⟩)
  -- What is spelled is neither a union nor a list, so the clauses for these are empty.
  union branches hs := absurd (hs ▸ h) (not_spelled_array outer branches)
  list members hs ht := by
    rcases type_of_spelled outer members (hs ▸ h) with ⟨kind, hk, hne, _⟩
    rw [hk, Option.some.injEq, Json.string.injEq] at ht
    exact absurd ht hne
  nullDefault field hsite hnull := absurd hnull (hd field hsite)
  kind members hs := by
    rcases type_of_spelled outer members (hs ▸ h) with ⟨kind, hk, _, hc⟩
    exact ⟨kind, hk, hc⟩
  logical members value hs hl := logical_of_spelled outer members (hs ▸ h) value hl
  space members hs := space_of_spelled outer members (hs ▸ h)
  fieldSpace := hn

/-- A union of a type and null is in canonical form where its default suits the first branch. -/
theorem canonical_union (field : Members) (type : Json) (branches : List Json)
    (ht : Single type) (hn : Json.find? "namespace" field = none)
    (h : (branches = [.string "null", type] ∧
        (Json.find? "default" field = none ∨ Json.find? "default" field = some .null)) ∨
      (branches = [type, .string "null"] ∧
        ∃ value, Json.find? "default" field = some value ∧ value ≠ .null)) :
    Canonical outer (.field field) (.array branches) where
  shape := Or.inr (Or.inl ⟨branches, rfl⟩)
  union branches' hs := ⟨field, type, rfl, ht, Json.array.inj hs ▸ h⟩
  list members hs := absurd hs Json.noConfusion
  nullDefault field' hsite hnull := by
    rw [Site.field.injEq] at hsite
    rw [← hsite] at hnull
    -- A default that is null stands with null as the first branch.
    rcases h with ⟨rfl, _⟩ | ⟨_, value, hv, hne⟩
    · exact ⟨type, rfl⟩
    · rw [hv, Option.some.injEq] at hnull
      exact absurd hnull hne
  kind members hs := absurd hs Json.noConfusion
  logical members value hs := absurd hs Json.noConfusion
  space members hs := absurd hs Json.noConfusion
  fieldSpace field' hsite := Site.field.inj hsite ▸ hn

/-- A list of a type is in canonical form where its default is a list. -/
theorem canonical_list (field : Members) (type : Json) (values : List Json) (ht : Single type)
    (hd : Json.find? "default" field = some (.array values))
    (hn : Json.find? "namespace" field = none) :
    Canonical outer (.field field) (arraySchema type) where
  shape := Or.inr (Or.inr ⟨_, rfl⟩)
  union branches hs := absurd hs Json.noConfusion
  list members hs _ := by
    rw [← Json.object.inj hs]
    exact ⟨field, type, rfl, rfl, ht, values, hd⟩
  nullDefault field' hsite hnull := by
    rw [← Site.field.inj hsite, hd] at hnull
    exact nomatch hnull
  kind members hs := by
    rw [← Json.object.inj hs]
    exact ⟨"array", rfl, Or.inl (by decide)⟩
  logical members value hs hl := by
    rw [← Json.object.inj hs] at hl
    exact nomatch hl
  space members hs := by
    rw [← Json.object.inj hs]
    -- An array is no definition, so it neither has nor leaves a namespace.
    refine ⟨iff_of_false nofun ?_, nofun⟩
    rintro ⟨⟨kind, hk, ht⟩, _⟩
    rw [find?_cons, if_neg (by decide), find?_cons, if_pos rfl, Option.some.injEq,
      Json.string.injEq] at ht
    exact absurd (ht ▸ hk) (by decide)
  fieldSpace field' hsite := Site.field.inj hsite ▸ hn

/-- What can occur is in canonical form. -/
theorem canonical_of_occurs (s : Json) (h : Occurs outer site s) : Canonical outer site s := by
  cases h with
  | type _ _ h hsite =>
      exact canonical_of_spelled outer site s h (fun field hs => absurd hs (hsite field))
        fun field hs => absurd hs (hsite field)
  | null => exact canonical_of_spelled outer .branch _ (.name outer "null") nofun nofun
  | field field doc _ h hshape hn =>
      have hsingle := single_of_spelled outer doc h
      generalize hd : Json.find? "default" field = default at hshape
      -- The default decides on which side null stands, and whether the type is a list.
      cases hshape with
      | plain _ hne =>
          refine canonical_of_spelled outer _ s h (fun field' hs => ?_) fun field' hs => ?_
          · rw [← Site.field.inj hs, hd]
            exact hne
          · rw [← Site.field.inj hs]
            exact hn
      | nullFirst _ hnull =>
          exact canonical_union outer field doc _ hsingle hn (Or.inl ⟨rfl, hd ▸ hnull⟩)
      | nullLast value hne =>
          exact canonical_union outer field doc _ hsingle hn (Or.inr ⟨rfl, value, hd, hne⟩)
      | list values => exact canonical_list outer field doc values hsingle hd hn

end

end Avro

/-- Exports are in canonical form throughout, whatever the registry and the root. -/
theorem toSchema_canonical (r : Registry) (root : Ty) (e : Json) (h : toSchema r root = .ok e)
    (outer : Option String) (site : Avro.Site) (s : Json)
    (hs : Avro.StandsAt e outer site s) : Avro.Canonical outer site s := by
  rcases (toSchema_eq_ok_iff r root e).mp h with ⟨refs, written, hwalk⟩
  have hspelled := Avro.spelled_of_walk r none [] written [root] [e] refs hwalk none rfl e
    List.mem_cons_self
  exact Avro.canonical_of_occurs outer site s
    (Avro.occurs_of_standsAt e hspelled outer site s hs)

open Sample

/-- In the export of an item the colour is defined within a union, and leaves the namespace. -/
theorem toSchema_canonical_items : ∃ e members,
    toSchema items (.named (.struct 0)) = .ok e ∧
      Avro.StandsAt e (some "shop.Item") .branch (.object members) ∧
      Json.find? "namespace" members = some (.string "") ∧
      Avro.Canonical (some "shop.Item") .branch (.object members) := by
  have hexport : ∃ e, toSchema items (.named (.struct 0)) = .ok e ∧
      Avro.StandsAt e (some "shop.Item") .branch
        (.object (Avro.enumMembers (some "shop") colour)) :=
    ⟨_, rfl, .branch (.field _) (.field none .root .root rfl
      (List.mem_cons_of_mem _ List.mem_cons_self) rfl)
      (List.mem_cons_of_mem _ List.mem_cons_self)⟩
  rcases hexport with ⟨e, he, hs⟩
  exact ⟨e, _, he, hs, rfl, toSchema_canonical items _ e he _ _ _ hs⟩

end Schemata
