import Schemata.Proofs.Avro.Places
import Schemata.Proofs.Registry.Renaming
import Schemata.Proofs.Widths

/-!
# The Grammar of Documents

The documents that are type expressions, without regard to what they are read
as.

There are no types and no registries here. What one part of a document passes
on to the next is the list of the names that have been begun so far, and a
reference is good if it is one of them. A record's own names are begun before
its fields, so the fields may refer to it. Everything else is a matter of
shape, and each kind of shape is a relation of its own: the schemas of fields
(`FieldSchema`), the items of lists (`ItemSchema`), what begins a definition
(`Begins`).

Two questions are left open by a grammar. An object may say of itself that it
is a `map`, and it is not obvious whether that may be a reference to a type of
the name; and the same alias may be written twice for one type or field.
`Grammar.plain` makes no exceptions of either, and `Grammar.actual` is what
imports go by. The two differ: see the end of `Schemata.Proofs.Avro.Grammatical`.

## Main definitions

* `Avro.Grammar`: The words that are reserved, and whether aliases repeat.
* `Avro.FieldSchema`: The type expression that the schema of a field is about.
* `Avro.Begins`: A definition begins with names that are free.
* `Avro.FieldLines`: The fields of a record, with their names.
* `Avro.Typed`: The documents are type expressions, one after another.

## Theorems

* `Avro.splitUnion_iff_nullBeside`: The two ways to write a union of one branch
  or of a branch and null.
* `Avro.fieldSchema_iff`: The schemas that have a form with a default that
  suits it.
* `Avro.digits_iff`: The attributes of a decimal type.
* `Avro.begins_iff`: The names of a definition.
-/

namespace Schemata

namespace Avro

/-- What is left open in the grammar. -/
structure Grammar where
  /-- The words that an object cannot refer by. -/
  reserved : List String
  /-- No alias is written twice beside a name. -/
  once : Bool

/-- The grammar without exceptions: no word is reserved, and no alias is written twice. -/
def Grammar.plain : Grammar :=
  ⟨[], true⟩

/-- The grammar of imports: the words for definitions are reserved, and aliases are a set. -/
def Grammar.actual : Grammar :=
  ⟨definitionKinds, false⟩

/-- The aliases may stand beside the name. -/
def Grammar.Apart (g : Grammar) (name : String) (list : List String) : Prop :=
  name ∉ list ∧ (g.once = true → list.Nodup)

/-! ### Attributes -/

/-- The attribute lists the strings; without it there are none. -/
def Lists (members : Members) (key : String) (list : List String) : Prop :=
  Json.find? key members = some (.array (list.map .string)) ∨
    (Json.find? key members = none ∧ list = [])

/-- The attribute is a number of 32 bits. -/
def Counts (members : Members) (key : String) (n : Nat) : Prop :=
  Json.find? key members = some (.int n) ∧ n < numberLimit

/-- The attributes of a decimal type: at least one digit, and no more of them behind the
    point than there are. -/
def Digits (members : Members) : Prop :=
  ∃ precision, Counts members "precision" precision ∧ 0 < precision ∧
    (Json.find? "scale" members = none ∨
      ∃ scale, Counts members "scale" scale ∧ scale ≤ precision)

/-! ### Schemas of fields -/

/-- The union is of the branch and of null, in either order. -/
def NullBeside (branches : List Json) (branch : Json) : Prop :=
  isNull branch = false ∧
    ∃ other, isNull other = true ∧ (branches = [other, branch] ∨ branches = [branch, other])

/-- The items of a list are of the type that the second document expresses. -/
inductive ItemSchema : Json → Json → Prop
  | plain (items : Json) (hu : NoUnion items) (ha : arrayItems? items = none) :
      ItemSchema items items
  | single (item : Json) (hn : isNull item = false) (ha : arrayItems? item = none) :
      ItemSchema (.array [item]) item
  | nullable (branches : List Json) (item : Json) (h : NullBeside branches item)
      (ha : arrayItems? item = none) : ItemSchema (.array branches) item

/-- A field with the default has the schema, and its values are of the type that the second
    document expresses. -/
inductive FieldSchema (default : Option Json) : Json → Json → Prop
  | plain (schema : Json) (hu : NoUnion schema) (ha : arrayItems? schema = none)
      (hd : default ≠ some .null) : FieldSchema default schema schema
  | list (schema items item : Json) (ha : arrayItems? schema = some items)
      (hi : ItemSchema items item) (hd : ∀ value ∈ default, ∃ values, value = .array values) :
      FieldSchema default schema item
  | single (branch type : Json) (hn : isNull branch = false)
      (h : FieldSchema default branch type) : FieldSchema default (.array [branch]) type
  | nullable (branches : List Json) (branch : Json) (h : NullBeside branches branch)
      (ha : arrayItems? branch = none) : FieldSchema default (.array branches) branch
  | nullableList (branches : List Json) (branch items item : Json)
      (h : NullBeside branches branch) (ha : arrayItems? branch = some items)
      (hi : ItemSchema items item)
      (hd : ∀ value ∈ default, value = .null ∨ ∃ values, value = .array values) :
      FieldSchema default (.array branches) item

/-! ### Type expressions -/

/-- The word is a primitive type other than null, or it refers to a name that is known,
    within the namespace or as it is written. -/
def Told (space : Option String) (known : List String) (word : String) : Prop :=
  (word ∈ primitiveNames ∧ word ≠ "null") ∨
    (word ∉ primitiveNames ∧ (qualify word space ∈ known ∨ word ∈ known))

/-- A definition begins with a name in full and with aliases in its namespace, and none of
    them is known. -/
structure Begins (g : Grammar) (space : Option String) (known : List String) (members : Members)
    (name : String) (list : List String) : Prop where
  named : ∃ written, text? members "name" = some written ∧
    name = qualify written (definitionSpace members space)
  listed : ∃ written, Lists members "aliases" written ∧
    list = written.map (qualify · (namespaceOf? name))
  apart : g.Apart name list
  fresh : ∀ n ∈ name :: list, n ∉ known

/-- The symbols of an enum: at least one, no two alike, and the default among them. -/
def Symbols (members : Members) : Prop :=
  ∃ symbols, Lists members "symbols" symbols ∧ symbols ≠ [] ∧ symbols.Nodup ∧
    ∀ symbol ∈ text? members "default", symbol ∈ symbols

/-- The document is that of a field, which has the names and is about the type that the
    last document expresses. -/
inductive FieldLine (g : Grammar) : Json → List String → Json → Prop
  | mk (members : Members) (name : String) (list : List String) (schema type : Json)
      (hname : text? members "name" = some name) (haliases : Lists members "aliases" list)
      (ha : g.Apart name list) (htype : Json.find? "type" members = some schema)
      (h : FieldSchema (Json.find? "default" members) schema type) :
      FieldLine g (.object members) (name :: list) type

/-- The documents are those of the fields of a record; no two of them share a name. -/
inductive FieldLines (g : Grammar) : List Json → List (List String) → List Json → Prop
  | nil : FieldLines g [] [] []
  | cons {item : Json} {names : List String} {type : Json} {items : List Json}
      {others : List (List String)} {types : List Json} (h : FieldLine g item names type)
      (hd : ∀ other ∈ others, names.Disjoint other) (rest : FieldLines g items others types) :
      FieldLines g (item :: items) (names :: others) (type :: types)

/-- Within a namespace the documents are type expressions, one after another. The names that
    are known are first those of what came before, and then also those of what has been
    begun in the documents. -/
inductive Typed (g : Grammar) : Option String → List String → List Json → List String → Prop
  | nil (space : Option String) (known : List String) : Typed g space known [] known
  | word (space : Option String) (known known' : List String) (word : String) (docs : List Json)
      (hw : Told space known word) (rest : Typed g space known docs known') :
      Typed g space known (.string word :: docs) known'
  | object (space : Option String) {known known' : List String} {members : Members}
      (word : String) {docs : List Json} (hk : Json.find? "type" members = some (.string word))
      (hr : word ∉ g.reserved) (hw : Told space known word)
      (hd : word = "bytes" → text? members "logicalType" = some "decimal" → Digits members)
      (rest : Typed g space known docs known') :
      Typed g space known (.object members :: docs) known'
  | wrapped (space : Option String) (known middle known' : List String)
      (members nested : Members) (docs : List Json)
      (hk : Json.find? "type" members = some (.object nested))
      (h : Typed g space known [.object nested] middle) (rest : Typed g space middle docs known') :
      Typed g space known (.object members :: docs) known'
  | enumeration (space : Option String) {known known' : List String} {members : Members}
      (name : String) (list : List String) {docs : List Json}
      (hk : Json.find? "type" members = some (.string "enum"))
      (h : Begins g space known members name list) (hs : Symbols members)
      (rest : Typed g space (name :: list ++ known) docs known') :
      Typed g space known (.object members :: docs) known'
  | record (space : Option String) {known middle known' : List String} {members : Members}
      (name : String) (list : List String) (items : List Json) {names : List (List String)}
      (types : List Json) {docs : List Json}
      (hk : Json.find? "type" members = some (.string "record") ∨
        Json.find? "type" members = some (.string "error"))
      (h : Begins g space known members name list)
      (hi : Json.find? "fields" members = some (.array items))
      (hf : FieldLines g items names types)
      (body : Typed g (namespaceOf? name) (name :: list ++ known) types middle)
      (rest : Typed g space middle docs known') :
      Typed g space known (.object members :: docs) known'

/-! ### What attributes are read as -/

theorem stringItems_eq_ok_iff (key : String) (items : List Json) (list : List String) :
    stringItems key items = .ok list ↔ items = list.map .string := by
  constructor
  · intro h
    induction items generalizing list with
    | nil =>
        rw [stringItems, Except.ok.injEq] at h
        rw [← h, List.map_nil]
    | cons item items ih =>
        -- An item that is no text ends the list with an error.
        cases item with
        | string text =>
            rw [stringItems] at h
            rcases hr : stringItems key items with e | rest
            · rw [hr] at h
              cases h
            · rw [hr, Except.map, Except.ok.injEq] at h
              rw [← h, List.map_cons, ih rest hr]
        | null | bool _ | int _ | float _ | array _ | object _ =>
            cases h
  · rintro rfl
    exact stringItems_map key list

theorem strings_eq_ok_iff {members : Members} {key : String} {list : List String} :
    strings members key = .ok list ↔ Lists members key list := by
  unfold strings Lists
  rcases hv : Json.find? key members with _ | value
  · simp only [Except.ok.injEq, reduceCtorEq, true_and, false_or]
    exact eq_comm
  · cases value with
    | array items =>
        simp only [Option.some.injEq, Json.array.injEq, reduceCtorEq, false_and, or_false]
        exact stringItems_eq_ok_iff key items list
    | null | bool _ | int _ | float _ | string _ | object _ =>
        simp only [reduceCtorEq, Option.some.injEq, false_and, or_self]

theorem number?_eq_some_iff (members : Members) (key : String) (n : Nat) :
    number? members key = .ok (some n) ↔ Counts members key n := by
  unfold number? Counts
  rcases hv : Json.find? key members with _ | value
  · simp only [Except.ok.injEq, reduceCtorEq, false_and]
  · cases value with
    | int m =>
        cases m with
        | ofNat m =>
            simp only [Json.nat?, Option.some.injEq, Json.int.injEq, Int.ofNat_eq_natCast,
              Int.ofNat_inj]
            -- A number is held in 64 bits, and a larger one is none.
            by_cases hm : m < numberLimit
            · rw [if_pos hm, Except.ok.injEq, Option.some.injEq]
              exact ⟨fun h => ⟨h, h ▸ hm⟩, fun h => h.1⟩
            · rw [if_neg hm]
              simp only [reduceCtorEq, false_iff, not_and]
              rintro rfl
              exact hm
        | negSucc m =>
            simp only [Json.nat?, reduceCtorEq, Option.some.injEq, Json.int.injEq, false_and]
    | null | bool _ | float _ | string _ | array _ | object _ =>
        simp only [Json.nat?, reduceCtorEq, Option.some.injEq, false_and]

theorem number?_eq_none_iff (members : Members) (key : String) :
    number? members key = .ok none ↔ Json.find? key members = none := by
  unfold number?
  rcases hv : Json.find? key members with _ | value
  · simp only
  · simp only [reduceCtorEq, iff_false]
    intro h
    split at h
    · split at h
      · rw [Except.ok.injEq] at h
        exact absurd h (Option.some_ne_none _)
      · exact nomatch h
    · exact nomatch h

/-- The attributes make a decimal type. -/
theorem digits_iff (members : Members) : Digits members ↔ ∃ precision scale type,
    number? members "precision" = .ok (some precision) ∧ number? members "scale" = .ok scale ∧
      DecimalType.new precision (scale.getD 0) = .ok type := by
  simp only [Digits, ← number?_eq_some_iff, ← number?_eq_none_iff]
  -- A scale that is missing is zero, and zero goes with every precision.
  constructor
  · rintro ⟨precision, hp, hpos, hs | ⟨scale, hs, hle⟩⟩
    · rcases (DecimalType.exists_new_iff precision 0).mpr ⟨hpos, Nat.zero_le _⟩ with ⟨type, ht⟩
      exact ⟨precision, none, type, hp, hs, ht⟩
    · rcases (DecimalType.exists_new_iff precision scale).mpr ⟨hpos, hle⟩ with ⟨type, ht⟩
      exact ⟨precision, some scale, type, hp, hs, ht⟩
  · rintro ⟨precision, scale, type, hp, hs, ht⟩
    rcases (DecimalType.exists_new_iff precision _).mp ⟨type, ht⟩ with ⟨hpos, hle⟩
    refine ⟨precision, hp, hpos, ?_⟩
    cases scale with
    | none => exact Or.inl hs
    | some scale => exact Or.inr ⟨scale, hs, hle⟩

/-! ### What schemas of fields come to -/

/-- A union that comes down to a branch is that branch alone, or with null beside it. -/
theorem splitUnion_iff_nullBeside (branches : List Json) (branch : Json) :
    (∃ nullable, splitUnion branches = .ok (branch, nullable)) ↔
      (isNull branch = false ∧ branches = [branch]) ∨ NullBeside branches branch := by
  simp only [splitUnion_eq_ok_iff]
  constructor
  · rintro ⟨_, hf, hn, _⟩
    -- What stands before and behind the branch is null, and there is one of that at most.
    rcases List.filter_eq_cons_iff.mp hf with ⟨front, back, rfl, hfront, hb, hback⟩
    have hfront' : ∀ doc ∈ front, isNull doc = true := by simpa using hfront
    have hback' : ∀ doc ∈ back, isNull doc = true := by simpa using hback
    rw [Bool.not_eq_true'] at hb
    rw [List.filter_append, List.filter_cons_of_neg (by rw [hb]; exact Bool.false_ne_true),
      List.filter_eq_self.mpr hfront', List.filter_eq_self.mpr hback', List.length_append] at hn
    match front, back, hn with
    | [], [], _ => exact Or.inl ⟨hb, rfl⟩
    | [other], [], _ =>
        exact Or.inr ⟨hb, other, hfront' other List.mem_cons_self, Or.inl rfl⟩
    | [], [other], _ =>
        exact Or.inr ⟨hb, other, hback' other List.mem_cons_self, Or.inr rfl⟩
    | _ :: _, _ :: _, hn | [], _ :: _ :: _, hn | _ :: _ :: _, [], hn =>
        simp only [List.length_cons, List.length_nil] at hn
        omega
  · rintro (⟨hb, rfl⟩ | ⟨hb, other, hn, rfl | rfl⟩)
    all_goals
      refine ⟨_, ?_, ?_, rfl⟩
      · simp [*]
      · simp [*]

/-- A union with null beside a branch is not one of a single branch. -/
theorem NullBeside.ne_singleton (branches : List Json) (branch : Json)
    (h : NullBeside branches branch) (b : Json) : branches ≠ [b] := by
  rcases h with ⟨_, other, _, rfl | rfl⟩ <;>
    exact fun he => List.cons_ne_nil _ _ (List.cons.inj he).2

theorem itemSchema_iff (items item : Json) : ItemSchema items item ↔ ItemRead items item := by
  -- A union of items is one branch alone or one beside null.
  constructor
  · intro h
    cases h with
    | plain _ hu ha => exact .plain items hu ha
    | single _ hn ha =>
        rcases (splitUnion_iff_nullBeside [item] item).mpr (Or.inl ⟨hn, rfl⟩) with ⟨nullable, hs⟩
        exact .union [item] item nullable hs ha
    | nullable branches _ h ha =>
        rcases (splitUnion_iff_nullBeside branches item).mpr (Or.inr h) with ⟨nullable, hs⟩
        exact .union branches item nullable hs ha
  · intro h
    cases h with
    | plain _ hu ha => exact .plain items hu ha
    | union branches _ nullable hs ha =>
        rcases (splitUnion_iff_nullBeside branches item).mp ⟨nullable, hs⟩ with ⟨hn, rfl⟩ | h
        · exact .single item hn ha
        · exact .nullable branches item h ha

/-- A required field may have any default but null. -/
theorem suits_required_iff (default : Option Json) :
    (default.elim Default.none .literal).normal.suits .required = true ↔
      default ≠ some .null := by
  cases default with
  | none => simp [Default.normal, Default.suits]
  | some value => cases value <;> simp [Default.normal, Default.ofLiteral, Default.suits]

/-- An optional field may have any default. -/
theorem suits_optional (default : Option Json) :
    (default.elim Default.none .ofLiteral).normal.suits .optional = true := by
  cases default with
  | none => rfl
  | some value => cases value <;> rfl

/-- A list may have a list as its default. -/
theorem suits_list_iff (default : Option Json) :
    (default.elim Default.emptyList .literal).normal.suits .repeated = true ↔
      ∀ value ∈ default, ∃ values, value = .array values := by
  cases default with
  | none => simp [Default.emptyList, Default.normal, Default.ofLiteral, Default.suits]
  | some value => cases value <;> simp [Default.normal, Default.ofLiteral, Default.suits]

/-- A list that may be absent may also have null as its default. -/
theorem suits_listDefault_iff (default : Option Json) :
    (listDefault default).normal.suits .repeated = true ↔
      ∀ value ∈ default, value = .null ∨ ∃ values, value = .array values := by
  cases default with
  | none => simp [listDefault, Default.emptyList, Default.normal, Default.ofLiteral, Default.suits]
  | some value =>
      cases value <;>
        simp [listDefault, Default.emptyList, Default.normal, Default.ofLiteral, Default.suits]

/-- The schemas of fields are those that have a form whose default suits it. -/
theorem fieldSchema_iff {default : Option Json} {schema type : Json} :
    FieldSchema default schema type ↔ ∃ form, FormRead default schema form ∧ form.type = type ∧
      form.default.normal.suits form.cardinality = true := by
  constructor
  · intro h
    induction h with
    | plain schema hu ha hd =>
        exact ⟨_, .plain schema hu ha, rfl, (suits_required_iff default).mpr hd⟩
    | list schema items item ha hi hd =>
        exact ⟨_, .list schema items item ha ((itemSchema_iff _ _).mp hi), rfl,
          (suits_list_iff default).mpr hd⟩
    | single branch type hn _ ih =>
        rcases ih with ⟨form, hf, ht, hs⟩
        exact ⟨form, .single branch form hn hf, ht, hs⟩
    | nullable branches branch h ha =>
        rcases (splitUnion_iff_nullBeside branches branch).mpr (Or.inr h) with ⟨nullable, hs⟩
        exact ⟨_, .nullable branches branch nullable (h.ne_singleton _ _) hs ha, rfl,
          suits_optional default⟩
    | nullableList branches branch items item h ha hi hd =>
        rcases (splitUnion_iff_nullBeside branches branch).mpr (Or.inr h) with ⟨nullable, hs⟩
        exact ⟨_, .nullableList branches branch items item nullable (h.ne_singleton _ _) hs ha
          ((itemSchema_iff _ _).mp hi), rfl, (suits_listDefault_iff default).mpr hd⟩
  · rintro ⟨form, hf, rfl, hsuits⟩
    -- A union that is not of one branch has null beside its branch.
    have hbeside : ∀ branches branch nullable, (∀ b, branches ≠ [b]) →
        splitUnion branches = .ok (branch, nullable) → NullBeside branches branch :=
      fun branches branch nullable hb hs =>
        ((splitUnion_iff_nullBeside branches branch).mp ⟨nullable, hs⟩).resolve_left
          fun h => hb branch h.2
    induction hf with
    | single branch form hn _ ih => exact .single branch _ hn (ih hsuits)
    | plain schema hu ha => exact .plain schema hu ha ((suits_required_iff default).mp hsuits)
    | list schema items item ha hi =>
        exact .list schema items item ha ((itemSchema_iff _ _).mpr hi)
          ((suits_list_iff default).mp hsuits)
    | nullable branches branch nullable hb hs ha =>
        exact .nullable branches branch (hbeside _ _ nullable hb hs) ha
    | nullableList branches branch items item nullable hb hs ha hi =>
        exact .nullableList branches branch items item (hbeside _ _ nullable hb hs) ha
          ((itemSchema_iff _ _).mpr hi) ((suits_listDefault_iff default).mp hsuits)

/-! ### What begins a definition -/

theorem exists_names_iff (name : String) (list : List String) :
    (∃ names, Names.new name list = .ok names) ↔ Grammar.actual.Apart name list := by
  unfold Grammar.Apart Grammar.actual Names.new
  by_cases hm : name ∈ NameSet.ofList list
  · rw [dif_pos hm]
    simp only [reduceCtorEq, exists_false, NameSet.mem_ofList.mp hm, not_true_eq_false, false_and]
  · rw [dif_neg hm]
    simp only [Except.ok.injEq, exists_eq', true_iff, Bool.false_eq_true, false_implies, and_true]
    exact fun h => hm (NameSet.mem_ofList.mpr h)

/-- The names carry what they were made of. -/
theorem carries_of_new {name : String} {list : List String} {names : Names}
    (h : Names.new name list = .ok names) (n : String) :
    names.Carries n ↔ n ∈ name :: list := by
  rcases Names.eq_of_new_eq_ok name list names h with ⟨hname, haliases⟩
  rw [Names.carries_iff, hname, haliases, NameSet.mem_ofList, List.mem_cons]

theorem hasDot_of_namespaceOf? (name space : String) (h : namespaceOf? name = some space) :
    hasDot name = true := by
  rw [← Bool.not_eq_false, ← namespaceOf?_eq_none_iff, h]
  exact Option.some_ne_none space

theorem fullName_eq_ok_iff {members : Members} {enclosing : Option String} {name : String} :
    fullName members enclosing = .ok (name, namespaceOf? name) ↔ ∃ written,
      text? members "name" = some written ∧
        name = qualify written (definitionSpace members enclosing) := by
  unfold fullName
  constructor
  · intro h
    rcases ht : text? members "name" with _ | written
    · rw [ht] at h
      exact nomatch h
    · rw [ht] at h
      refine ⟨written, rfl, ?_⟩
      -- A name with a space of its own is full as it is written.
      rcases hw : namespaceOf? written with _ | own
      · simp only [hw, Except.ok.injEq, Prod.mk.injEq] at h
        exact h.1.symm
      · simp only [hw, Except.ok.injEq, Prod.mk.injEq] at h
        rw [← h.1, qualify_of_hasDot written _ (hasDot_of_namespaceOf? written own hw)]
  · rintro ⟨written, ht, rfl⟩
    rw [ht]
    rcases hw : namespaceOf? written with _ | own
    · have hdot := (namespaceOf?_eq_none_iff written).mp hw
      have hs : namespaceOf? (qualify written (definitionSpace members enclosing)) =
          definitionSpace members enclosing := by
        rcases definitionSpace members enclosing with _ | given
        · exact hw
        · rw [qualify, hdot, if_neg Bool.false_ne_true, namespaceOf?_append given written hdot]
      simp only [hw, hs]
    · simp only [qualify_of_hasDot written _ (hasDot_of_namespaceOf? written own hw), hw]

/-- A definition begins with a name and aliases if these are read as names that no type
    carries. -/
theorem begins_iff (r : Registry) (known : List String) (hk : ∀ n, r.Carried n ↔ n ∈ known)
    (space : Option String) (members : Members) (name : String) (list : List String) :
    Begins .actual space known members name list ↔ ∃ names, names.name = name ∧
      fullName members space = .ok (name, namespaceOf? name) ∧
      aliases members (namespaceOf? name) = .ok list ∧ Names.new name list = .ok names ∧
      r.Unused names := by
  -- Aliases are full within the space of the name, wherever the definition stands.
  have haliases : aliases members (namespaceOf? name) = .ok list ↔ ∃ written,
      Lists members "aliases" written ∧ list = written.map (qualify · (namespaceOf? name)) := by
    unfold aliases
    simp only [← strings_eq_ok_iff]
    rcases strings members "aliases" with e | written
    · simp only [Except.map, reduceCtorEq, false_and, exists_false]
    · simp only [Except.map, Except.ok.injEq, exists_eq_left']
      exact eq_comm
  constructor
  · rintro ⟨hname, hlist, hapart, hfresh⟩
    rcases (exists_names_iff name list).mpr hapart with ⟨names, hnew⟩
    refine ⟨names, (Names.eq_of_new_eq_ok _ _ _ hnew).1, fullName_eq_ok_iff.mpr hname,
      haliases.mpr hlist, hnew, (r.unused_iff names).mpr fun n hc hcarried => ?_⟩
    exact hfresh n ((carries_of_new hnew n).mp hc) ((hk n).mp hcarried)
  · rintro ⟨names, _, hname, hlist, hnew, hu⟩
    refine ⟨fullName_eq_ok_iff.mp hname, haliases.mp hlist,
      (exists_names_iff _ _).mp ⟨names, hnew⟩, fun n hm hn => ?_⟩
    exact (r.unused_iff names).mp hu n ((carries_of_new hnew n).mpr hm) ((hk n).mpr hn)

end Avro

end Schemata
