import Schemata.Avro.Import
import Schemata.Proofs.Names

/-!
# What a Document Says by Itself

The parts of an import that look at the document alone.

Most of what an import does has nothing to do with the types it has met so
far: what kind of type an object defines, how the names of a definition are
completed, what the schema and the default of a field come to. Each is a
relation here between a document and what it is read as, with one case for
each way a document may be written. An import can then be taken apart by the
cases of the relation, and a document that was just written can be shown to
fall under one of them.

Only two things are left for the import itself: what a reference stands for,
and whether the names of a definition are still free.

## Main definitions

* `Avro.IsPrimitive`: The names that are no references.
* `Avro.NameRead`, `Avro.LeafRead`: Documents without parts.
* `Avro.NamesRead`, `Avro.EnumRead`, `Avro.RecordRead`: Definitions.
* `Avro.FormRead`: What the schema and the default of a field come to.
* `Avro.FieldRead`: Fields, up to their types.

## Theorems

* `Avro.namesRead_iff`: How the names of a definition are read.
* `Avro.fieldForm_eq_ok_iff`: The form of a field is read off its schema.
* `Avro.depth_le_of_fieldsRead`: The type of a field is written within it.
-/

namespace Schemata

namespace Avro

/-! ### Types without parts -/

/-- The kinds of objects that are more than a name. -/
def definitionKinds : List String :=
  ["record", "error", "enum", "fixed", "map", "array"]

/-- The logical type of an object is one that counts. -/
def HasLogical (members : Members) (kind : String) : Prop :=
  ∃ logical, text? members "logicalType" = some logical ∧
    ((kind = "bytes" ∧ logical = "decimal") ∨ (logical? kind logical).isSome)

/-- The text names a primitive type, null included. -/
def IsPrimitive (name : String) : Prop :=
  (primitive? name).isSome ∨ name = "null"

instance (name : String) : Decidable (IsPrimitive name) :=
  inferInstanceAs (Decidable (_ ∨ _))

/-- The names of the primitive types. -/
def primitiveNames : List String :=
  ["null", "boolean", "int", "long", "float", "double", "bytes", "string"]

theorem isPrimitive_iff (name : String) : IsPrimitive name ↔ name ∈ primitiveNames := by
  unfold IsPrimitive
  constructor
  · rintro (h | rfl)
    · unfold primitive? at h
      split at h <;> first
        | decide
        | exact nomatch h
    · decide
  · intro h
    simp only [primitiveNames, List.mem_cons, List.not_mem_nil, or_false] at h
    rcases h with rfl | rfl | rfl | rfl | rfl | rfl | rfl | rfl <;> decide

/-- The document comes down to a name: it is one, or an object that says no more. -/
inductive NameRead : Json → String → Prop
  | text (name : String) : NameRead (.string name) name
  | object (members : Members) (kind : String)
      (hk : Json.find? "type" members = some (.string kind)) (hd : kind ∉ definitionKinds)
      (hl : ¬ HasLogical members kind) : NameRead (.object members) kind

/-- The document is that of a type without parts and without a name of its own. -/
inductive LeafRead : Json → Ty → Prop
  | primitive {doc : Json} (name : String) {t : Ty} (hn : NameRead doc name)
      (hp : primitive? name = some t) : LeafRead doc t
  | decimal (members : Members) (precision : Nat) (scale : Option Nat) (type : DecimalType)
      (hk : Json.find? "type" members = some (.string "bytes"))
      (hl : text? members "logicalType" = some "decimal")
      (hp : number? members "precision" = .ok (some precision))
      (hs : number? members "scale" = .ok scale)
      (ht : DecimalType.new precision (scale.getD 0) = .ok type) :
      LeafRead (.object members) (.decimal type)
  | logical {members : Members} (kind logical : String) {scalar : ScalarKind}
      (hk : Json.find? "type" members = some (.string kind))
      (hl : text? members "logicalType" = some logical)
      (ht : logical? kind logical = some scalar) : LeafRead (.object members) (.scalar scalar)

/-- The names that a definition gives to its type. -/
def NamesRead (members : Members) (enclosing : Option String) (names : Names) : Prop :=
  ∃ list, fullName members enclosing = .ok (names.name, namespaceOf? names.name) ∧
    aliases members (namespaceOf? names.name) = .ok list ∧
    Names.new names.name list = .ok names

/-- The enum that a definition is read as. -/
structure EnumRead (members : Members) (enclosing : Option String) (e : EnumType) : Prop where
  kind : Json.find? "type" members = some (.string "enum")
  names : NamesRead members enclosing e.names
  documentation : e.documentation = text? members "doc"
  symbols : strings members "symbols" = .ok e.symbols
  default : e.default = text? members "default"

/-- The document of list items comes down to that of one item, which is no list. -/
inductive ItemRead : Json → Json → Prop
  | plain (items : Json) (hu : ∀ branches, items ≠ .array branches)
      (ha : arrayItems? items = none) : ItemRead items items
  | union (branches : List Json) (item : Json) (nullable : Bool)
      (hs : splitUnion branches = .ok (item, nullable)) (ha : arrayItems? item = none) :
      ItemRead (.array branches) item

/-- The default of a list that may be absent. -/
def listDefault : Option Json → Default
  | none | some .null => .emptyList
  | some value => .literal value

/-- What a field's schema and default come to, by what the schema is. -/
inductive FormRead (default : Option Json) : Json → FieldForm → Prop
  | single (branch : Json) (form : FieldForm) (hn : isNull branch = false)
      (h : FormRead default branch form) : FormRead default (.array [branch]) form
  | plain (schema : Json) (hu : ∀ branches, schema ≠ .array branches)
      (ha : arrayItems? schema = none) :
      FormRead default schema ⟨.required, schema, default.elim .none .literal⟩
  | list (schema items item : Json) (ha : arrayItems? schema = some items)
      (hi : ItemRead items item) :
      FormRead default schema ⟨.repeated, item, default.elim .emptyList .literal⟩
  | nullable (branches : List Json) (branch : Json) (nullable : Bool)
      (hb : ∀ b, branches ≠ [b]) (hs : splitUnion branches = .ok (branch, nullable))
      (ha : arrayItems? branch = none) :
      FormRead default (.array branches) ⟨.optional, branch, default.elim .none .ofLiteral⟩
  | nullableList (branches : List Json) (branch items item : Json) (nullable : Bool)
      (hb : ∀ b, branches ≠ [b]) (hs : splitUnion branches = .ok (branch, nullable))
      (ha : arrayItems? branch = some items) (hi : ItemRead items item) :
      FormRead default (.array branches) ⟨.repeated, item, listDefault default⟩

/-- The field that a document is read as, and the form that holds the document of its
    type. -/
inductive FieldRead : Json → FieldForm → Field → Prop
  | mk (members : Members) (schema : Json) {list : List String} {form : FieldForm} {field : Field}
      (hname : text? members "name" = some field.name)
      (htype : Json.find? "type" members = some schema)
      (hform : FormRead (Json.find? "default" members) schema form)
      (haliases : strings members "aliases" = .ok list)
      (hnames : Names.new field.name list = .ok field.names)
      (hdoc : field.documentation = text? members "doc")
      (hcard : field.cardinality = form.cardinality)
      (hdefault : field.default = form.default.normal) (howner : field.owner = none) :
      FieldRead (.object members) form field

/-- The fields that a list of documents is read as, one by one. -/
inductive FieldsRead : List Json → List FieldForm → List Field → Prop
  | nil : FieldsRead [] [] []
  | cons (item : Json) (form : FieldForm) (field : Field) (items : List Json)
      (forms : List FieldForm) (fields : List Field) (h : FieldRead item form field)
      (rest : FieldsRead items forms fields) :
      FieldsRead (item :: items) (form :: forms) (field :: fields)

/-- The struct that a definition is read as, without its fields, and their documents. -/
structure RecordRead (members : Members) (enclosing : Option String) (s : StructType)
    (items : List Json) : Prop where
  kind : Json.find? "type" members = some (.string "record") ∨
    Json.find? "type" members = some (.string "error")
  names : NamesRead members enclosing s.names
  documentation : s.documentation = text? members "doc"
  unassigned : s.fields = none
  items : Json.find? "fields" members = some (.array items)

/-- The primitives with logical types that are scalars are whole numbers. -/
theorem whole_of_logical? (kind logical : String) (scalar : ScalarKind)
    (h : logical? kind logical = some scalar) : kind = "int" ∨ kind = "long" := by
  unfold logical? at h
  split at h <;> first
    | exact Or.inl rfl
    | exact Or.inr rfl
    | exact nomatch h

theorem not_definition_of_logical (kind logical : String) {scalar : ScalarKind}
    (h : logical? kind logical = some scalar) : kind ∉ definitionKinds := by
  rcases whole_of_logical? kind logical scalar h with rfl | rfl <;> decide

/-! ### Definitions -/

/-- What a definition holds is within the namespace of its full name. -/
theorem fullName_space (members : Members) (enclosing : Option String) (name : String)
    (space : Option String) (h : fullName members enclosing = .ok (name, space)) :
    space = namespaceOf? name := by
  unfold fullName at h
  rcases ht : text? members "name" with _ | written
  · rw [ht] at h
    exact nomatch h
  · rw [ht] at h
    simp only [] at h
    -- A name that is written with a dot is full already.
    -- Any other is put behind the space that is given.
    rcases hs : namespaceOf? written with _ | own
    · rw [hs, Except.ok.injEq, Prod.mk.injEq] at h
      rw [← h.1, ← h.2]
      rcases hd : definitionSpace members enclosing with _ | given
      · exact hs.symm
      · have hdot := (namespaceOf?_eq_none_iff written).mp hs
        rw [qualify, hdot, if_neg Bool.false_ne_true, namespaceOf?_append given written hdot]
    · rw [hs, Except.ok.injEq, Prod.mk.injEq] at h
      rw [← h.1, ← h.2, hs]

/-- The names of a definition are read in three steps. -/
theorem namesRead_iff {members : Members} {enclosing : Option String} {names : Names} :
    NamesRead members enclosing names ↔ ∃ name space list,
      fullName members enclosing = .ok (name, space) ∧ aliases members space = .ok list ∧
        Names.new name list = .ok names := by
  constructor
  · rintro ⟨list, hname, haliases, hnew⟩
    exact ⟨_, _, list, hname, haliases, hnew⟩
  · rintro ⟨name, space, list, hname, haliases, hnew⟩
    have hn := (Names.eq_of_new_eq_ok name list names hnew).1
    have hs := fullName_space members enclosing name space hname
    rw [← hn] at hs hname hnew
    rw [hs] at hname haliases
    exact ⟨list, hname, haliases, hnew⟩

theorem enumNew_eq_ok_iff {name : String} {list : List String} {doc : Option String}
    {symbols : List String} {default : Option String} {e : EnumType} :
    EnumType.new name list doc symbols default = .ok e ↔ Names.new name list = .ok e.names ∧
      e.documentation = doc ∧ e.symbols = symbols ∧ e.default = default := by
  unfold EnumType.new
  rcases hn : Names.new name list with err | names
  · simp only [bind, Except.bind, reduceCtorEq, false_and]
  · simp only [bind, Except.bind, Except.ok.injEq]
    constructor
    · intro h
      split at h
      · exact nomatch h
      · split at h
        · exact nomatch h
        · split at h
          · rw [Except.ok.injEq] at h
            rw [← h]
            exact ⟨rfl, rfl, rfl, rfl⟩
          · exact nomatch h
    · -- An enum carries the proofs that its symbols pass the checks.
      rintro ⟨rfl, rfl, rfl, rfl⟩
      rw [dif_neg e.symbols_ne_nil]
      split
      · next symbol hr =>
          rw [firstRepeated?_nil_eq_none_iff.mpr e.symbols_nodup] at hr
          exact nomatch hr
      · rw [dif_pos e.default_mem]

theorem structNew_eq_ok_iff {name : String} {list : List String} {doc : Option String}
    {s : StructType} : StructType.new name list doc = .ok s ↔
      Names.new name list = .ok s.names ∧ s.documentation = doc ∧ s.fields = none := by
  unfold StructType.new
  rcases hn : Names.new name list with err | names
  · simp only [bind, Except.bind, reduceCtorEq, false_and]
  · simp only [bind, Except.bind, pure, Except.pure, Except.ok.injEq]
    constructor
    · rintro rfl
      exact ⟨rfl, rfl, rfl⟩
    · rintro ⟨rfl, rfl, hf⟩
      cases s
      rw [StructType.mk.injEq]
      exact ⟨rfl, rfl, hf.symm⟩

/-! ### Forms of fields -/

/-- The branch that is left of a union is the only one that is not null. -/
theorem splitUnion_eq_ok_iff (branches : List Json) (branch : Json) (nullable : Bool) :
    splitUnion branches = .ok (branch, nullable) ↔ branches.filter (!isNull ·) = [branch] ∧
      (branches.filter isNull).length ≤ 1 ∧
      nullable = decide ((branches.filter isNull).length = 1) := by
  unfold splitUnion
  simp only []
  split
  · next hb => simp only [hb, reduceCtorEq, List.nil_eq, List.cons_ne_self, false_and]
  · next b hb =>
      rw [hb]
      by_cases hn : (branches.filter isNull).length ≤ 1
      · rw [if_pos hn, Except.ok.injEq, Prod.mk.injEq, List.cons.injEq]
        exact ⟨fun h => ⟨⟨h.1, rfl⟩, hn, h.2.symm⟩, fun h => ⟨h.1.1, h.2.2.symm⟩⟩
      · rw [if_neg hn]
        simp only [reduceCtorEq, false_iff, not_and]
        exact fun _ h => absurd h hn
  · -- Of no branch or of several none is left.
    next hnil hone =>
      have hne : branches.filter (!isNull ·) ≠ [branch] := hone branch
      split <;> simp only [reduceCtorEq, hne, false_and]

theorem mem_of_splitUnion {branches : List Json} {branch : Json} {nullable : Bool}
    (h : splitUnion branches = .ok (branch, nullable)) :
    branch ∈ branches ∧ isNull branch = false := by
  have hf := ((splitUnion_eq_ok_iff branches branch nullable).mp h).1
  have hm : branch ∈ branches.filter (!isNull ·) := by
    rw [hf]
    exact List.mem_singleton_self _
  rw [List.mem_filter, Bool.not_eq_true'] at hm
  exact hm

theorem itemForm_eq_ok_iff (name : String) (items item : Json) :
    itemForm name items = .ok item ↔ ItemRead items item := by
  unfold itemForm
  constructor
  · intro h
    -- Items may be a union, and what is left of it must not be a list.
    cases items with
    | array branches =>
        rcases hs : splitUnion branches with e | ⟨branch, nullable⟩
        · simp only [hs, bind, Except.bind, Except.map, reduceCtorEq] at h
        · simp only [hs, bind, Except.bind, Except.map] at h
          by_cases ha : (arrayItems? branch).isSome
          · rw [if_pos ha] at h
            exact nomatch h
          · rw [if_neg ha, Except.ok.injEq] at h
            rw [← h]
            exact .union branches branch nullable hs (Option.not_isSome_iff_eq_none.mp ha)
    | null | bool _ | int _ | float _ | string _ | object _ =>
        simp only [bind, Except.bind] at h
        split at h
        · exact nomatch h
        · next ha =>
            rw [Except.ok.injEq] at h
            rw [← h]
            exact .plain _ (fun _ => Json.noConfusion) (Option.not_isSome_iff_eq_none.mp ha)
  · intro h
    cases h with
    | plain _ hu ha =>
        cases items with
        | array branches => exact absurd rfl (hu branches)
        | null | bool _ | int _ | float _ | string _ | object _ =>
            simp only [bind, Except.bind, ha, Option.isSome_none, Bool.false_eq_true, if_false]
    | union branches item nullable hs ha =>
        simp only [hs, bind, Except.bind, Except.map, ha, Option.isSome_none, Bool.false_eq_true,
          if_false]

theorem plainForm_eq_ok_iff (name : String) (schema : Json) (default : Option Json)
    (form : FieldForm) (hu : ∀ branches, schema ≠ .array branches) :
    plainForm name schema default = .ok form ↔ FormRead default schema form := by
  unfold plainForm
  constructor
  · intro h
    -- What has no items stands for itself, and a list for its items.
    rcases ha : arrayItems? schema with _ | items
    · rw [ha, Except.ok.injEq] at h
      rw [← h]
      exact .plain schema hu ha
    · rcases hi : itemForm name items with e | item
      · simp only [ha, hi, bind, Except.bind, reduceCtorEq] at h
      · simp only [ha, hi, bind, Except.bind, pure, Except.pure, Except.ok.injEq] at h
        rw [← h]
        exact .list schema items item ha ((itemForm_eq_ok_iff name items item).mp hi)
  · intro h
    cases h with
    | single branch => exact absurd rfl (hu _)
    | plain _ _ ha => rw [ha]
    | list _ items item ha hi =>
        simp only [ha, (itemForm_eq_ok_iff name items item).mpr hi, bind, Except.bind, pure,
          Except.pure]
    | nullable branches => exact absurd rfl (hu _)
    | nullableList branches => exact absurd rfl (hu _)

theorem nullableForm_eq_ok_iff (name : String) (branches : List Json) (branch : Json)
    (nullable : Bool) (default : Option Json) (form : FieldForm) (hb : ∀ b, branches ≠ [b])
    (hs : splitUnion branches = .ok (branch, nullable)) :
    nullableForm name branch default = .ok form ↔ FormRead default (.array branches) form := by
  unfold nullableForm
  constructor
  · intro h
    -- The branch beside null has the two forms that a type has without null.
    rcases ha : arrayItems? branch with _ | items
    · rw [ha, Except.ok.injEq] at h
      rw [← h]
      exact .nullable branches branch nullable hb hs ha
    · rcases hi : itemForm name items with e | item
      · simp only [ha, hi, bind, Except.bind, reduceCtorEq] at h
      · simp only [ha, hi, bind, Except.bind, pure, Except.pure, Except.ok.injEq] at h
        rw [← h]
        exact .nullableList branches branch items item nullable hb hs ha
          ((itemForm_eq_ok_iff name items item).mp hi)
  · intro h
    cases h with
    | single b => exact absurd rfl (hb b)
    | plain _ hu => exact absurd rfl (hu branches)
    | list _ _ _ ha => exact nomatch ha
    | nullable _ branch' _ _ hs' ha =>
        -- The branch that is left of a union is the same each time.
        rw [hs, Except.ok.injEq, Prod.mk.injEq] at hs'
        rw [hs'.1, ha]
    | nullableList _ branch' items item _ _ hs' ha hi =>
        rw [hs, Except.ok.injEq, Prod.mk.injEq] at hs'
        simp only [hs'.1, ha, (itemForm_eq_ok_iff name items item).mpr hi, bind, Except.bind, pure,
          Except.pure]
        rfl

theorem fieldForm_eq_ok_iff (name : String) (schema : Json) (default : Option Json)
    (form : FieldForm) :
    fieldForm name default schema = .ok form ↔ FormRead default schema form := by
  induction schema using fieldForm.induct with
  | case1 branch hn =>
      -- A union of null alone has no form.
      rw [fieldForm, if_pos hn]
      simp only [reduceCtorEq, false_iff]
      intro h
      cases h with
      | single _ _ hn' => exact absurd hn (by rw [hn']; exact Bool.false_ne_true)
      | plain _ hu => exact hu _ rfl
      | list _ _ _ ha => simp only [arrayItems?, reduceCtorEq] at ha
      | nullable _ _ _ hb => exact hb _ rfl
      | nullableList _ _ _ _ _ hb => exact hb _ rfl
  | case2 branch hn ih =>
      rw [fieldForm, if_neg hn, ih]
      constructor
      · exact .single branch form (Bool.not_eq_true _ ▸ hn)
      · intro h
        cases h with
        | single _ _ _ h => exact h
        | plain _ hu => exact absurd rfl (hu _)
        | list _ _ _ ha => simp only [arrayItems?, reduceCtorEq] at ha
        | nullable _ _ _ hb => exact absurd rfl (hb _)
        | nullableList _ _ _ _ _ hb => exact absurd rfl (hb _)
  | case3 branches hb =>
      rw [fieldForm.eq_2 _ _ _ hb]
      rcases hs : splitUnion branches with e | ⟨branch, nullable⟩
      · simp only [bind, Except.bind, reduceCtorEq, false_iff]
        intro h
        cases h with
        | single b => exact hb b rfl
        | plain _ hu => exact hu _ rfl
        | list _ _ _ ha => simp only [arrayItems?, reduceCtorEq] at ha
        | nullable _ _ _ _ hs' => simp only [hs, reduceCtorEq] at hs'
        | nullableList _ _ _ _ _ _ hs' => simp only [hs, reduceCtorEq] at hs'
      · exact nullableForm_eq_ok_iff name branches branch nullable default form (fun b => hb b) hs
  | case4 schema hb hu =>
      rw [fieldForm.eq_3 _ _ _ hb hu]
      exact plainForm_eq_ok_iff name schema default form fun branches => hu branches

/-! ### Fields -/

theorem withAliases_eq_ok_iff (field field' : Field) (list : List String) :
    field.withAliases list = .ok field' ↔
      ∃ names, Names.new field.name list = .ok names ∧ field' = { field with names := names } := by
  unfold Field.withAliases
  rcases Names.new field.name list with e | names
  · simp only [bind, Except.bind, reduceCtorEq, false_and, exists_false]
  · simp only [bind, Except.bind, pure, Except.pure, Except.ok.injEq]
    exact ⟨fun h => ⟨names, rfl, h.symm⟩, fun ⟨_, hn, h⟩ => by rw [h, hn]⟩

theorem withDefault_eq_ok_iff (field field' : Field) (default : Default) :
    field.withDefault default = .ok field' ↔ ∃ h : default.normal.suits field.cardinality = true,
      field' = { field with default := default.normal, suits := h } := by
  unfold Field.withDefault
  by_cases hs : default.normal.suits field.cardinality = true
  · rw [dif_pos hs, Except.ok.injEq]
    exact ⟨fun h => ⟨hs, h.symm⟩, fun ⟨_, h⟩ => h.symm⟩
  · rw [dif_neg hs]
    simp only [reduceCtorEq, false_iff, not_exists]
    exact fun h => absurd h hs

/-! ### Depth -/

theorem itemsDepth_cons_le_iff (doc : Json) (docs : List Json) (depth : Nat) :
    Json.itemsDepth (doc :: docs) ≤ depth ↔ doc.depth ≤ depth ∧ Json.itemsDepth docs ≤ depth := by
  rw [Json.itemsDepth]
  exact Nat.max_le

theorem itemsDepth_singleton (doc : Json) : Json.itemsDepth [doc] = doc.depth := by
  rw [Json.itemsDepth, Json.itemsDepth, Nat.max_zero]

theorem depth_le_of_mem (items : List Json) (item : Json) (h : item ∈ items) :
    item.depth ≤ Json.itemsDepth items := by
  induction items with
  | nil => exact absurd h List.not_mem_nil
  | cons first rest ih =>
      rw [Json.itemsDepth]
      rcases List.mem_cons.mp h with rfl | h
      · exact Nat.le_max_left _ _
      · exact Nat.le_trans (ih h) (Nat.le_max_right _ _)

theorem depth_le_of_find? (members : Members) (key : String) (value : Json)
    (h : Json.find? key members = some value) : value.depth ≤ Json.membersDepth members := by
  induction members with
  | nil => exact nomatch h
  | cons member rest ih =>
      rw [Json.membersDepth]
      rw [Json.find?] at h
      by_cases hk : member.1 = key
      · rw [if_pos hk, Option.some.injEq] at h
        rw [h]
        exact Nat.le_max_left _ _
      · rw [if_neg hk] at h
        exact Nat.le_trans (ih h) (Nat.le_max_right _ _)

/-- An object is at least one level deep, and what a member holds lies below that level. -/
theorem exists_level_of_object (members : Members) (depth : Nat)
    (hd : (Json.object members).depth ≤ depth) : ∃ below, depth = below + 1 ∧
      ∀ key value, Json.find? key members = some value → value.depth ≤ below := by
  rw [Json.depth] at hd
  cases depth with
  | zero => exact absurd hd (Nat.not_succ_le_zero _)
  | succ below =>
      exact ⟨below, rfl, fun key value h =>
        Nat.le_trans (depth_le_of_find? members key value h) (Nat.le_of_succ_le_succ hd)⟩

theorem depth_le_of_arrayItems? (doc items : Json) (h : arrayItems? doc = some items) :
    items.depth ≤ doc.depth := by
  cases doc with
  | object members =>
      rw [arrayItems?] at h
      by_cases ht : text? members "type" = some "array"
      · rw [if_pos ht] at h
        rw [Json.depth]
        exact Nat.le_succ_of_le (depth_le_of_find? members "items" items h)
      · rw [if_neg ht] at h
        exact nomatch h
  | null | bool _ | int _ | float _ | string _ | array _ =>
      exact nomatch h

theorem depth_le_of_itemRead (items item : Json) (h : ItemRead items item) :
    item.depth ≤ items.depth := by
  cases h with
  | plain => exact Nat.le_refl _
  | union branches _ nullable hs _ =>
      rw [Json.depth]
      exact Nat.le_succ_of_le (depth_le_of_mem branches item (mem_of_splitUnion hs).1)

theorem depth_le_of_formRead (default : Option Json) (schema : Json) (form : FieldForm)
    (h : FormRead default schema form) : form.type.depth ≤ schema.depth := by
  have hbranch : ∀ (branches : List Json) (branch : Json), branch ∈ branches →
      branch.depth ≤ (Json.array branches).depth := by
    intro branches branch hm
    rw [Json.depth]
    exact Nat.le_succ_of_le (depth_le_of_mem branches branch hm)
  induction h with
  | single branch form _ _ ih =>
      exact Nat.le_trans ih (hbranch [branch] branch (List.mem_singleton_self _))
  | plain => exact Nat.le_refl _
  | list schema items item ha hi =>
      exact Nat.le_trans (depth_le_of_itemRead items item hi)
        (depth_le_of_arrayItems? schema items ha)
  | nullable branches branch nullable _ hs _ =>
      exact hbranch branches branch (mem_of_splitUnion hs).1
  | nullableList branches branch items item nullable _ hs ha hi =>
      exact Nat.le_trans (depth_le_of_itemRead items item hi)
        (Nat.le_trans (depth_le_of_arrayItems? branch items ha)
          (hbranch branches branch (mem_of_splitUnion hs).1))

theorem depth_le_of_fieldsRead (items : List Json) (forms : List FieldForm) (fields : List Field)
    (h : FieldsRead items forms fields) :
    Json.itemsDepth (forms.map FieldForm.type) ≤ Json.itemsDepth items := by
  induction h with
  | nil => exact Nat.le_refl _
  | cons item form field items forms fields h _ ih =>
      rw [List.map_cons, Json.itemsDepth, Json.itemsDepth]
      refine Nat.max_le.mpr ⟨?_, Nat.le_trans ih (Nat.le_max_right _ _)⟩
      refine Nat.le_trans ?_ (Nat.le_max_left _ _)
      cases h with
      | mk members schema _ htype hform =>
          rw [Json.depth]
          exact Nat.le_succ_of_le (Nat.le_trans (depth_le_of_formRead _ schema form hform)
            (depth_le_of_find? members "type" schema htype))

/-- The types of the fields of a record are written within the list of its fields. -/
theorem depth_le_of_recordRead {members : Members} {space : Option String} {s : StructType}
    {items : List Json} {forms : List FieldForm} {fields : List Field}
    (h : RecordRead members space s items) (hf : FieldsRead items forms fields) {depth : Nat}
    (hd : ∀ key value, Json.find? key members = some value → value.depth ≤ depth) :
    Json.itemsDepth (forms.map FieldForm.type) ≤ depth := by
  have hlist := hd "fields" _ h.items
  rw [Json.depth] at hlist
  exact Nat.le_trans (depth_le_of_fieldsRead items forms fields hf) (Nat.le_of_succ_le hlist)

end Avro

end Schemata
