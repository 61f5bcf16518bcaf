import Mathlib.Logic.Relation
import Schemata.Proofs.Avro.Modular
import Schemata.Proofs.Avro.Places
import Schemata.Proofs.Avro.RoundTrip

/-!
# Redundant Encodings

Documents that say the same thing in different words.

A schema document may be written in several ways: a type may stand in a union
by itself, the branches of a union with null may be swapped, null may be an
object, items of a list may be nullable, a list may be nullable, and a
primitive may have a logical type that nobody knows. `Rewrite` has one case
for each of these, and further ones that carry a rewriting from a part of a
document to the whole of it. Which rewritings there are depends on the place:
a list may be put into a union where it is the type of a field, and only if
the default of the field is not null.

The two documents of a rewriting are `Alike`, which means something else in
each place: what they give there is the same, in the sense of `Places`. A
union keeps its branch that is not null up to this. So whatever the rewritings
do to the form of a field, in the end the same fields are read, in the same
registries, and the same types. Documents that lead nowhere are no exception:
they give the same nothing.

## Main definitions

* `Avro.PrimitiveDoc`: The ways to write a primitive.
* `Avro.Place`, `Avro.Rewrite`: A rewriting of a document in some place.
* `Avro.Alike`: What two documents give in a place is the same.

## Theorems

* `Avro.alike_of_rewrite`: Documents stay alike when one is rewritten.
* `toSchema_beside_new`: A graph is exported alike under another token.
* `fromSchema_rewrite`: Documents that differ by rewritings are imported as
  equal graphs, with one export, or not at all.
-/

namespace Schemata

namespace Avro

/-! ### Rewritings -/

/-- The document is a primitive: its name, or an object that has it as type and no logical type
    with a counterpart. -/
inductive PrimitiveDoc (name : String) : Json → Prop
  | text : PrimitiveDoc name (.string name)
  | object (members : Members) (hk : Json.find? "type" members = some (.string name))
      (hl : ∀ logical, text? members "logicalType" = some logical →
        (name, logical) ∉ counterparts) : PrimitiveDoc name (.object members)

/-- The objects differ in the value of one member. -/
structure Replaced (key : String) (members members' : Members) (value value' : Json) : Prop where
  before : Json.find? key members = some value
  after : Json.find? key members' = some value'
  others : ∀ k, k ≠ key → Json.find? k members = Json.find? k members'

/-- Where a document stands. -/
inductive Place where
  /-- A type is expected, and no list. -/
  | type
  /-- A type or a list is expected, and no union. -/
  | branch
  /-- It is a union. -/
  | union
  /-- It is the items of a list. -/
  | items
  /-- It is the type of a field with a default. -/
  | field (default : Option Json)

/-- A document in some place is written in another way. -/
inductive Rewrite : Place → Json → Json → Prop
  /-- A primitive may be an object, and it may have a logical type without a counterpart. -/
  | primitive (name : String) (a b : Json) (hn : name ∈ primitiveNames)
      (ha : PrimitiveDoc name a) (hb : PrimitiveDoc name b) : Rewrite .branch a b
  /-- The branches of a union with null are swapped. -/
  | swap (a b : Json) (hn : isNull a = true ∨ isNull b = true) :
      Rewrite .union (.array [a, b]) (.array [b, a])
  /-- Null may be an object. -/
  | null (a b : Json) (front back : List Json) (ha : isNull a = true) (hb : isNull b = true) :
      Rewrite .union (.array (front ++ a :: back)) (.array (front ++ b :: back))
  /-- Items that are no union may be null as well. -/
  | nullableItems (n items : Json) (hn : isNull n = true) (hu : NoUnion items) :
      Rewrite .items items (.array [n, items])
  /-- A type may be a union of one branch. -/
  | wrap (default : Option Json) (a : Json) : Rewrite (.field default) a (.array [a])
  /-- A list may be null, if the default is not. -/
  | nullableList (default : Option Json) (n : Json) (members : Members) (hn : isNull n = true)
      (hk : text? members "type" = some "array") (hd : default ≠ some .null) :
      Rewrite (.field default) (.object members) (.array [n, .object members])
  /-- The type of a field of a record is written in another way. -/
  | record (members members' field field' : Members) (front back : List Json)
      (schema schema' : Json)
      (hk : Json.find? "type" members = some (.string "record") ∨
        Json.find? "type" members = some (.string "error"))
      (h : Replaced "fields" members members' (.array (front ++ .object field :: back))
        (.array (front ++ .object field' :: back)))
      (hf : Replaced "type" field field' schema schema')
      (step : Rewrite (.field (Json.find? "default" field)) schema schema') :
      Rewrite .branch (.object members) (.object members')
  /-- So is a type within an object. -/
  | wrapped (members members' nested nested' : Members)
      (h : Replaced "type" members members' (.object nested) (.object nested'))
      (step : Rewrite .type (.object nested) (.object nested')) :
      Rewrite .branch (.object members) (.object members')
  | wrappedUnion (members members' : Members) (branches branches' : List Json)
      (h : Replaced "type" members members' (.array branches) (.array branches'))
      (step : Rewrite .union (.array branches) (.array branches')) :
      Rewrite .branch (.object members) (.object members')
  | list (members members' : Members) (items items' : Json)
      (hk : text? members "type" = some "array")
      (h : Replaced "items" members members' items items') (step : Rewrite .items items items') :
      Rewrite .branch (.object members) (.object members')
  | map (members members' : Members) (default : Option Json) (values values' : Json)
      (hk : Json.find? "type" members = some (.string "map"))
      (h : Replaced "values" members members' values values')
      (step : Rewrite (.field default) values values') :
      Rewrite .branch (.object members) (.object members')
  | within (a b : Json) (front back : List Json) (step : Rewrite .branch a b) :
      Rewrite .union (.array (front ++ a :: back)) (.array (front ++ b :: back))
  | withinUnion (a b : Json) (front back : List Json) (step : Rewrite .union a b) :
      Rewrite .union (.array (front ++ a :: back)) (.array (front ++ b :: back))
  /-- Where a type is expected, so are the places that may hold more. -/
  | type (a b : Json) (step : Rewrite .branch a b) : Rewrite .type a b
  | typeUnion (a b : Json) (step : Rewrite .union a b) : Rewrite .type a b
  | item (a b : Json) (step : Rewrite .branch a b) : Rewrite .items a b
  | itemUnion (a b : Json) (step : Rewrite .union a b) : Rewrite .items a b
  | plain (default : Option Json) (a b : Json) (step : Rewrite .branch a b) :
      Rewrite (.field default) a b
  | fieldUnion (default : Option Json) (a b : Json) (step : Rewrite .union a b) :
      Rewrite (.field default) a b
  | single (default : Option Json) (a b : Json) (step : Rewrite (.field default) a b) :
      Rewrite (.field default) (.array [a]) (.array [b])

/-! ### Documents that are alike -/

/-- The documents are read as the same types. -/
def ReadAlike (a b : Json) : Prop :=
  ∀ space r t r', Reading space r [a] [t] r' ↔ Reading space r [b] [t] r'

/-- The documents are items that are read as the same types. -/
def ItemsAlike (a b : Json) : Prop :=
  ∀ space r t r', ItemGives space r r' t a ↔ ItemGives space r r' t b

/-- The documents give the same as the type of a field. -/
def FormAlike (default : Option Json) (a b : Json) : Prop :=
  ∀ space r t r' cardinality value, FormGives space r r' t default a cardinality value ↔
    FormGives space r r' t default b cardinality value

/-- The documents are both null or not, both lists with items that are alike or not, and they
    are read as the same types, by themselves and as types of fields. -/
structure BranchAlike (a b : Json) : Prop where
  null : isNull a = isNull b
  items : Option.Rel ItemsAlike (arrayItems? a) (arrayItems? b)
  reads : ReadAlike a b
  forms : ∀ default, FormAlike default a b

/-- The documents are unions whose branches that are not null are alike. -/
def UnionAlike (a b : Json) : Prop :=
  ∃ as bs, a = .array as ∧ b = .array bs ∧ as.length = bs.length ∧
    (∀ x, Leads as x → ∃ y, Leads bs y ∧ BranchAlike x y) ∧
    ∀ y, Leads bs y → ∃ x, Leads as x ∧ BranchAlike x y

/-- What the documents give in the place is the same. -/
def Alike : Place → Json → Json → Prop
  | .type, a, b => ReadAlike a b
  | .branch, a, b => BranchAlike a b ∧ NoUnion a ∧ NoUnion b
  | .union, a, b => UnionAlike a b
  | .items, a, b => ItemsAlike a b
  | .field default, a, b => FormAlike default a b

theorem BranchAlike.refl (a : Json) : BranchAlike a a := by
  refine ⟨rfl, ?_, fun _ _ _ _ => Iff.rfl, fun _ _ _ _ _ _ _ => Iff.rfl⟩
  cases arrayItems? a with
  | none => exact .none
  | some items => exact .some fun _ _ _ _ => Iff.rfl

/-- Branches that are alike are both lists or neither of them is. -/
theorem BranchAlike.arrayItems?_eq_none_iff (a b : Json) (h : BranchAlike a b) :
    arrayItems? a = none ↔ arrayItems? b = none := by
  have hi := h.items
  cases ha : arrayItems? a <;> cases hb : arrayItems? b <;> rw [ha, hb] at hi <;> cases hi
  exact iff_of_false (Option.some_ne_none _) (Option.some_ne_none _)

/-- What is no union gives as the type of a field what it gives by itself or as a list. -/
theorem alike_branch (a b : Json) (hu : NoUnion a) (hu' : NoUnion b) (hn : isNull a = isNull b)
    (hi : Option.Rel ItemsAlike (arrayItems? a) (arrayItems? b)) (hr : ReadAlike a b) :
    Alike .branch a b := by
  refine ⟨⟨hn, hi, hr, fun default space r t r' cardinality value => ?_⟩, hu, hu'⟩
  cases ha : arrayItems? a <;> cases hb : arrayItems? b <;> rw [ha, hb] at hi <;> cases hi
  · rw [formGives_iff_of_plain space r r' t default cardinality value a hu ha,
      formGives_iff_of_plain space r r' t default cardinality value b hu' hb, hr space r t r']
  · next hitems =>
      rw [formGives_iff_of_list space r r' t default cardinality value a _ ha,
        formGives_iff_of_list space r r' t default cardinality value b _ hb, hitems space r t r']

/-- Documents that are neither unions nor lists are alike if they are read as the same types. -/
theorem alike_of_shapes (a b : Json) (hu : NoUnion a) (hu' : NoUnion b)
    (hn : isNull a = isNull b) (hi : arrayItems? a = none) (hi' : arrayItems? b = none)
    (hr : ReadAlike a b) : Alike .branch a b := by
  refine alike_branch a b hu hu' hn ?_ hr
  rw [hi, hi']
  exact .none

/-! ### Types -/

theorem nameRead_of_primitiveDoc (name : String) (doc : Json) (hn : name ∈ primitiveNames)
    (h : PrimitiveDoc name doc) : NameRead doc name := by
  cases h with
  | text => exact .text name
  | object members hk hl =>
      refine .object members name hk ?_ ?_
      · intro hd
        simp only [primitiveNames, List.mem_cons, List.not_mem_nil, or_false] at hn
        rcases hn with rfl | rfl | rfl | rfl | rfl | rfl | rfl | rfl <;>
          exact absurd hd (by decide)
      · rw [hasLogical_iff]
        rintro ⟨logical, ht, hm⟩
        exact hl logical ht hm

theorem alike_primitive (name : String) (a b : Json) (hn : name ∈ primitiveNames)
    (ha : PrimitiveDoc name a) (hb : PrimitiveDoc name b) : Alike .branch a b := by
  have hna := nameRead_of_primitiveDoc name a hn ha
  have hnb := nameRead_of_primitiveDoc name b hn hb
  rcases shape_of_nameRead a name hna with ⟨hnulla, hua, hia⟩
  rcases shape_of_nameRead b name hnb with ⟨hnullb, hub, hib⟩
  refine alike_of_shapes a b hua hub (hnulla.trans hnullb.symm) hia hib fun space r t r' => ?_
  rw [reading_iff_of_nameRead space r r' a name t hna,
    reading_iff_of_nameRead space r r' b name t hnb]

/-- An object whose type is no name of null and no list is neither. -/
theorem shape_of_object (members : Members) (hn : text? members "type" ≠ some "null")
    (ha : text? members "type" ≠ some "array") : isNull (.object members) = false ∧
      NoUnion (.object members) ∧ arrayItems? (.object members) = none := by
  refine ⟨?_, fun _ => Json.noConfusion, ?_⟩
  · rw [isNull, beq_eq_false_iff_ne]
    exact hn
  · rw [arrayItems?, if_neg ha]

/-- Objects with types that are neither null nor lists are alike if they are read as the same
    types. -/
theorem alike_of_objects (members members' : Members) (hn : text? members "type" ≠ some "null")
    (hn' : text? members' "type" ≠ some "null") (ha : text? members "type" ≠ some "array")
    (ha' : text? members' "type" ≠ some "array")
    (hr : ReadAlike (.object members) (.object members')) :
    Alike .branch (.object members) (.object members') := by
  rcases shape_of_object members hn ha with ⟨hnull, hu, hi⟩
  rcases shape_of_object members' hn' ha' with ⟨hnull', hu', hi'⟩
  exact alike_of_shapes _ _ hu hu' (hnull.trans hnull'.symm) hi hi' hr

/-- An object whose type is no text says so. -/
theorem text?_type_eq_none (members : Members) (value : Json)
    (hk : Json.find? "type" members = some value) (hv : value.string? = none) :
    text? members "type" = none := by
  rw [text?, hk, Option.bind_some, hv]

theorem alike_wrapped (members members' nested nested' : Members)
    (h : Replaced "type" members members' (.object nested) (.object nested'))
    (step : ReadAlike (.object nested) (.object nested')) :
    Alike .branch (.object members) (.object members') := by
  have htext := text?_type_eq_none members _ h.before rfl
  have htext' := text?_type_eq_none members' _ h.after rfl
  have hne := fun kind : String => (Option.some_ne_none kind).symm
  refine alike_of_objects members members' (htext ▸ hne _) (htext' ▸ hne _) (htext ▸ hne _)
    (htext' ▸ hne _) fun space r t r' => ?_
  rw [reading_wrapped_iff space r r' members nested t h.before,
    reading_wrapped_iff space r r' members' nested' t h.after]
  exact step space r t r'

theorem alike_wrappedUnion (members members' : Members) (branches branches' : List Json)
    (h : Replaced "type" members members' (.array branches) (.array branches')) :
    Alike .branch (.object members) (.object members') := by
  have htext := text?_type_eq_none members _ h.before rfl
  have htext' := text?_type_eq_none members' _ h.after rfl
  have hne := fun kind : String => (Option.some_ne_none kind).symm
  refine alike_of_objects members members' (htext ▸ hne _) (htext' ▸ hne _) (htext ▸ hne _)
    (htext' ▸ hne _) fun space r t r' => ?_
  exact iff_of_false (not_reading_of_type_array space r r' members branches t h.before)
    (not_reading_of_type_array space r r' members' branches' t h.after)

theorem alike_map (members members' : Members) (values values' : Json)
    (hk : Json.find? "type" members = some (.string "map"))
    (h : Replaced "values" members members' values values') :
    Alike .branch (.object members) (.object members') := by
  have hk' := (h.others "type" (by decide)).symm.trans hk
  have htext := text?_type members "map" hk
  have htext' := text?_type members' "map" hk'
  refine alike_of_objects members members' (htext ▸ by decide) (htext' ▸ by decide)
    (htext ▸ by decide) (htext' ▸ by decide) fun space r t r' => ?_
  exact iff_of_false (not_reading_of_kind_map space r r' members t hk)
    (not_reading_of_kind_map space r r' members' t hk')

/-! ### Records -/

theorem Replaced.symm (key : String) (members members' : Members) (value value' : Json)
    (h : Replaced key members members' value value') :
    Replaced key members' members value' value :=
  ⟨h.after, h.before, fun k hk => (h.others k hk).symm⟩

theorem Replaced.text?_eq {key : String} {members members' : Members} {value value' : Json}
    (h : Replaced key members members' value value') (k : String) (hk : k ≠ key) :
    text? members k = text? members' k := by
  rw [text?, text?, h.others k hk]

theorem Replaced.strings_eq {key : String} {members members' : Members} {value value' : Json}
    (h : Replaced key members members' value value') (k : String) (hk : k ≠ key) :
    strings members k = strings members' k := by
  rw [strings, strings, h.others k hk]

/-- A field is read but for its type in the same way when its type is rewritten. -/
theorem fieldGives_of_replaced (field field' : Members) (schema schema' : Json)
    (hf : Replaced "type" field field' schema schema')
    (step : FormAlike (Json.find? "default" field) schema schema') (space : Option String)
    (r r' : Registry) (read : Field) (h : FieldGives space r (.object field) read r') :
    FieldGives space r (.object field') read r' := by
  rcases h with ⟨form, hread, htype⟩
  cases hread with
  | @mk _ written _ form _ hname hschema hform haliases hnames hdoc hcard hdefault howner =>
      have hwritten : written = schema := by
        rw [hf.before, Option.some.injEq] at hschema
        exact hschema.symm
      rcases (step space r read.type r' form.cardinality form.default).mp
        ⟨form.type, hwritten ▸ hform, htype⟩ with ⟨type, hform', htype'⟩
      rw [hf.others "default" (by decide)] at hform'
      -- All other members of the field are as they were, so they are read the same.
      refine ⟨⟨form.cardinality, type, form.default⟩, .mk field' schema' ?_ hf.after
        hform' ?_ hnames ?_ hcard hdefault howner, htype'⟩
      · rw [← hf.text?_eq "name" (by decide)]
        exact hname
      · rw [← hf.strings_eq "aliases" (by decide)]
        exact haliases
      · rw [← hf.text?_eq "doc" (by decide)]
        exact hdoc

theorem fieldGives_iff_of_replaced (field field' : Members) (schema schema' : Json)
    (hf : Replaced "type" field field' schema schema')
    (step : FormAlike (Json.find? "default" field) schema schema') (space : Option String)
    (r r' : Registry) (read : Field) :
    FieldGives space r (.object field) read r' ↔ FieldGives space r (.object field') read r' := by
  refine ⟨fieldGives_of_replaced field field' schema schema' hf step space r r' read,
    fieldGives_of_replaced field' field schema' schema hf.symm (fun space r t r' c v => ?_) space r
      r' read⟩
  rw [← hf.others "default" (by decide)]
  exact (step space r t r' c v).symm

/-- Lists of fields that differ in one of them give the same if that one does. -/
theorem fieldsGive_iff_of_replaced (front back : List Json) (doc doc' : Json)
    (h : ∀ space r field r', FieldGives space r doc field r' ↔ FieldGives space r doc' field r')
    (space : Option String) (r r' : Registry) (fields : List Field) :
    FieldsGive space r (front ++ doc :: back) fields r' ↔
      FieldsGive space r (front ++ doc' :: back) fields r' := by
  induction front generalizing r fields with
  | nil => simp only [List.nil_append, fieldsGive_cons_iff, h]
  | cons first front ih => simp only [List.cons_append, fieldsGive_cons_iff, ih]

theorem recordRead_of_replaced (members members' : Members) (items items' : List Json)
    (h : Replaced "fields" members members' (.array items) (.array items'))
    (space : Option String) (s : StructType) (hs : RecordRead members space s items) :
    RecordRead members' space s items' := by
  have htext := h.text?_eq
  have hspace : definitionSpace members space = definitionSpace members' space := by
    rw [definitionSpace, definitionSpace, h.others "namespace" (by decide)]
  have hname : fullName members space = fullName members' space := by
    rw [fullName, fullName, htext "name" (by decide), hspace]
  have haliases : ∀ inner, aliases members inner = aliases members' inner := by
    intro inner
    rw [aliases, aliases, h.strings_eq "aliases" (by decide)]
  -- What a record is read as depends on its fields only through the list of them.
  refine ⟨?_, ?_, ?_, hs.unassigned, h.after⟩
  · rw [← h.others "type" (by decide)]
    exact hs.kind
  · rcases hs.names with ⟨list, hfull, hlist, hnew⟩
    exact ⟨list, hname ▸ hfull, haliases _ ▸ hlist, hnew⟩
  · rw [← htext "doc" (by decide)]
    exact hs.documentation

theorem alike_record (members members' : Members) (items items' : List Json)
    (hk : Json.find? "type" members = some (.string "record") ∨
      Json.find? "type" members = some (.string "error"))
    (h : Replaced "fields" members members' (.array items) (.array items'))
    (hf : ∀ space r fields r', FieldsGive space r items fields r' ↔
      FieldsGive space r items' fields r') :
    Alike .branch (.object members) (.object members') := by
  have hk' := hk
  rw [h.others "type" (by decide)] at hk'
  have htext : ∀ ms : Members, (Json.find? "type" ms = some (.string "record") ∨
      Json.find? "type" ms = some (.string "error")) →
      text? ms "type" ≠ some "null" ∧ text? ms "type" ≠ some "array" := by
    rintro ms (hms | hms) <;> rw [text?_type ms _ hms] <;> decide
  -- The kind is none of those that stand for another type, so both are read as records.
  refine alike_of_objects members members' (htext members hk).1 (htext members' hk').1
    (htext members hk).2 (htext members' hk').2 fun space r t r' => ?_
  rw [reading_record_iff space r r' members t hk, reading_record_iff space r r' members' t hk']
  constructor
  · rintro ⟨s, written, fields, r₁, hs, hunused, hgive, hset, rfl⟩
    have hwritten := hs.items
    rw [h.before, Option.some.injEq, Json.array.injEq] at hwritten
    subst hwritten
    exact ⟨s, items', fields, r₁, recordRead_of_replaced members members' _ items' h space s hs,
      hunused, (hf _ _ _ _).mp hgive, hset, rfl⟩
  · rintro ⟨s, written, fields, r₁, hs, hunused, hgive, hset, rfl⟩
    have hwritten := hs.items
    rw [h.after, Option.some.injEq, Json.array.injEq] at hwritten
    subst hwritten
    exact ⟨s, items, fields, r₁, recordRead_of_replaced members' members _ items h.symm space s hs,
      hunused, (hf _ _ _ _).mpr hgive, hset, rfl⟩

/-! ### Branches and unions -/

theorem alike_list (members members' : Members) (items items' : Json)
    (hk : text? members "type" = some "array")
    (h : Replaced "items" members members' items items') (step : ItemsAlike items items') :
    Alike .branch (.object members) (.object members') := by
  have hk' : text? members' "type" = some "array" := by
    rw [← h.text?_eq "type" (by decide)]
    exact hk
  have hu : ∀ ms : Members, NoUnion (.object ms) := fun _ _ => Json.noConfusion
  refine alike_branch _ _ (hu _) (hu _) ?_ ?_ fun space r t r' => ?_
  · rw [isNull, isNull, hk, hk']
  · rw [arrayItems?, arrayItems?, if_pos hk, if_pos hk', h.before, h.after]
    exact .some step
  · exact iff_of_false (not_reading_of_kind_array space r r' members t hk)
      (not_reading_of_kind_array space r r' members' t hk')

theorem alike_swap (a b : Json) : Alike .union (.array [a, b]) (.array [b, a]) := by
  -- In another order the branches that are null are as many, and the others are the same.
  have hperm : ∀ (as bs : List Json) (x : Json), as.Perm bs → Leads as x → Leads bs x := by
    intro as bs x hp hx
    rw [leads_iff] at hx ⊢
    have hfilter := hp.filter (!isNull ·)
    rw [hx.1] at hfilter
    exact ⟨List.perm_singleton.mp hfilter.symm, (hp.filter isNull).length_eq ▸ hx.2⟩
  refine ⟨[a, b], [b, a], rfl, rfl, rfl, fun x hx => ?_, fun y hy => ?_⟩
  · exact ⟨x, hperm _ _ x (.swap b a []) hx, .refl x⟩
  · exact ⟨y, hperm _ _ y (.swap a b []) hy, .refl y⟩

/-- Unions are alike if their branches are, one by one, but for those that are null. -/
theorem alike_union (as bs : List Json) (h : List.Forall₂ (fun a b => isNull a = isNull b ∧
    (isNull a = false → BranchAlike a b)) as bs) : Alike .union (.array as) (.array bs) := by
  -- Without the nulls the branches are alike one by
  -- one, and there are as many nulls on either side.
  have hfilters : List.Forall₂ BranchAlike (as.filter (!isNull ·)) (bs.filter (!isNull ·)) ∧
      (as.filter isNull).length = (bs.filter isNull).length := by
    induction h with
    | nil => exact ⟨.nil, rfl⟩
    | @cons a b as bs hab _ ih =>
        cases hn : isNull a with
        | true =>
            have hn' : isNull b = true := hab.1 ▸ hn
            simp only [hn, hn', Bool.not_true, Bool.false_eq_true, not_false_eq_true,
              List.filter_cons_of_neg, List.filter_cons_of_pos, List.length_cons, ih.2, and_true]
            exact ih.1
        | false =>
            have hn' : isNull b = false := hab.1 ▸ hn
            simp only [hn, hn', Bool.not_false, Bool.false_eq_true, not_false_eq_true,
              List.filter_cons_of_neg, List.filter_cons_of_pos, ih.2, and_true]
            exact .cons (hab.2 hn) ih.1
  rcases hfilters with ⟨hbranches, hnulls⟩
  -- A union leads to a type if that is its only branch apart from null.
  refine ⟨as, bs, rfl, rfl, h.length_eq, fun x hx => ?_, fun y hy => ?_⟩
  · rw [leads_iff] at hx
    rw [hx.1] at hbranches
    generalize hy : bs.filter (!isNull ·) = ys at hbranches
    cases hbranches with
    | @cons _ y _ _ hxy hnil =>
        cases hnil
        exact ⟨y, (leads_iff bs y).mpr ⟨hy, hnulls ▸ hx.2⟩, hxy⟩
  · rw [leads_iff] at hy
    rw [hy.1] at hbranches
    generalize hx : as.filter (!isNull ·) = xs at hbranches
    cases hbranches with
    | @cons x _ _ _ hxy hnil =>
        cases hnil
        exact ⟨x, (leads_iff as x).mpr ⟨hx, hnulls ▸ hy.2⟩, hxy⟩

/-- Unions that differ in one branch are alike if the branches are both null or alike. -/
theorem alike_union_of_branch (a b : Json) (front back : List Json)
    (h : isNull a = isNull b ∧ (isNull a = false → BranchAlike a b)) :
    Alike .union (.array (front ++ a :: back)) (.array (front ++ b :: back)) := by
  have hrefl : ∀ docs : List Json, List.Forall₂ (fun a b => isNull a = isNull b ∧
      (isNull a = false → BranchAlike a b)) docs docs :=
    fun docs => List.forall₂_same.mpr fun doc _ => ⟨rfl, fun _ => .refl doc⟩
  exact alike_union _ _ (List.rel_append (hrefl front) (.cons h (hrefl back)))

theorem branchGives_iff (default : Option Json) (a b : Json) (h : BranchAlike a b)
    (space : Option String) (r r' : Registry) (t : Ty) (cardinality : Cardinality)
    (value : Default) : BranchGives space r r' t default cardinality value a ↔
      BranchGives space r r' t default cardinality value b := by
  have hi := h.items
  unfold BranchGives
  cases ha : arrayItems? a <;> cases hb : arrayItems? b <;> rw [ha, hb] at hi <;> cases hi
  · simp only [h.reads space r t r']
  · next hitems => simp only [hitems space r t r']

theorem alike_fieldUnion (default : Option Json) (a b : Json) (h : Alike .union a b) :
    Alike (.field default) a b := by
  rcases h with ⟨as, bs, rfl, rfl, hlen, hleft, hright⟩
  intro space r t r' cardinality value
  -- A union of one branch is read as the branch itself, and this is so on both sides or on neither.
  by_cases hone : ∃ x, as = [x]
  · rcases hone with ⟨x, rfl⟩
    rcases List.length_eq_one_iff.mp hlen.symm with ⟨y, rfl⟩
    rw [formGives_single, formGives_single]
    simp only [leads_singleton_iff] at hleft hright
    cases hn : isNull x with
    | true =>
        have hn' : isNull y = true := by
          rw [← Bool.not_eq_false]
          intro hn'
          rcases hright y ⟨hn', rfl⟩ with ⟨_, ⟨hx, _⟩, _⟩
          exact absurd (hn.symm.trans hx) Bool.noConfusion
        exact iff_of_false
          (not_formGives_of_isNull space r r' t default cardinality value x hn)
          (not_formGives_of_isNull space r r' t default cardinality value y hn')
    | false =>
        rcases hleft x ⟨hn, rfl⟩ with ⟨_, ⟨_, rfl⟩, hxy⟩
        exact hxy.forms default space r t r' cardinality value
  · have hone' : ¬ ∃ y, bs = [y] := by
      rw [← List.length_eq_one_iff] at hone ⊢
      exact hlen ▸ hone
    rw [formGives_union_iff space r r' t default cardinality value as (not_exists.mp hone),
      formGives_union_iff space r r' t default cardinality value bs (not_exists.mp hone')]
    constructor
    · rintro ⟨x, hx, hgives⟩
      rcases hleft x hx with ⟨y, hy, hxy⟩
      exact ⟨y, hy, (branchGives_iff default x y hxy space r r' t cardinality value).mp hgives⟩
    · rintro ⟨y, hy, hgives⟩
      rcases hright y hy with ⟨x, hx, hxy⟩
      exact ⟨x, hx, (branchGives_iff default x y hxy space r r' t cardinality value).mpr hgives⟩

/-- No union is read by itself. -/
theorem alike_typeUnion (a b : Json) (h : Alike .union a b) : Alike .type a b := by
  rcases h with ⟨as, bs, rfl, rfl, _⟩
  exact fun space r t r' => iff_of_false (not_reading_array space r r' as [] [t])
    (not_reading_array space r r' bs [] [t])

/-- A union within a union is a branch that is not read, unless it is the type of a field. -/
theorem alike_withinUnion (a b : Json) (front back : List Json) (h : Alike .union a b) :
    Alike .union (.array (front ++ a :: back)) (.array (front ++ b :: back)) := by
  have hreads := alike_typeUnion a b h
  have hforms := fun default => alike_fieldUnion default a b h
  rcases h with ⟨as, bs, rfl, rfl, _⟩
  exact alike_union_of_branch _ _ front back ⟨rfl, fun _ => ⟨rfl, .none, hreads, hforms⟩⟩

/-! ### Items -/

theorem alike_item (a b : Json) (h : Alike .branch a b) : Alike .items a b := by
  rcases h with ⟨hab, hu, hu'⟩
  intro space r t r'
  rw [itemGives_iff_of_plain space r r' t a hu, itemGives_iff_of_plain space r r' t b hu']
  exact and_congr hab.arrayItems?_eq_none_iff (hab.reads space r t r')

theorem alike_itemUnion (a b : Json) (h : Alike .union a b) : Alike .items a b := by
  rcases h with ⟨as, bs, rfl, rfl, _, hleft, hright⟩
  intro space r t r'
  rw [itemGives_union_iff, itemGives_union_iff]
  constructor
  · rintro ⟨x, hx, ha, hr⟩
    rcases hleft x hx with ⟨y, hy, hxy⟩
    exact ⟨y, hy, hxy.arrayItems?_eq_none_iff.mp ha, (hxy.reads space r t r').mp hr⟩
  · rintro ⟨y, hy, ha, hr⟩
    rcases hright y hy with ⟨x, hx, hxy⟩
    exact ⟨x, hx, hxy.arrayItems?_eq_none_iff.mpr ha, (hxy.reads space r t r').mpr hr⟩

/-- Beside null a branch leads if it is not null itself. -/
theorem leads_beside_null_iff (n a b : Json) (hn : isNull n = true) :
    Leads [n, a] b ↔ isNull a = false ∧ a = b := by
  rw [leads_iff]
  cases ha : isNull a with
  | true =>
      simp only [List.filter_cons, hn, ha, Bool.not_true, Bool.false_eq_true, if_false,
        List.filter_nil, List.nil_eq, List.cons_ne_self, reduceCtorEq, false_and]
  | false =>
      simp only [List.filter_cons, hn, ha, Bool.not_true, Bool.not_false, Bool.false_eq_true,
        if_false, if_true, List.filter_nil, List.cons.injEq, and_true, List.length_cons,
        List.length_nil, Nat.le_refl, true_and]

theorem alike_nullableItems (n items : Json) (hn : isNull n = true) (hu : NoUnion items) :
    Alike .items items (.array [n, items]) := by
  intro space r t r'
  rw [itemGives_iff_of_plain space r r' t items hu, itemGives_union_iff]
  simp only [leads_beside_null_iff n items _ hn]
  constructor
  · rintro ⟨ha, hr⟩
    refine ⟨items, ⟨?_, rfl⟩, ha, hr⟩
    rw [← Bool.not_eq_true]
    exact fun hnull => not_reading_of_isNull space r r' items t hnull hr
  · rintro ⟨_, ⟨_, rfl⟩, ha, hr⟩
    exact ⟨ha, hr⟩

/-! ### Types of fields -/

theorem alike_single (default : Option Json) (a b : Json) (h : Alike (.field default) a b) :
    Alike (.field default) (.array [a]) (.array [b]) := by
  intro space r t r' cardinality value
  rw [formGives_single, formGives_single]
  exact h space r t r' cardinality value

theorem alike_wrap (default : Option Json) (a : Json) : Alike (.field default) a (.array [a]) :=
  fun space r t r' cardinality value =>
    (formGives_single space r r' t default cardinality value a).symm

theorem alike_nullableList (default : Option Json) (n : Json) (members : Members)
    (hn : isNull n = true) (hk : text? members "type" = some "array")
    (hd : default ≠ some .null) :
    Alike (.field default) (.object members) (.array [n, .object members]) := by
  intro space r t r' cardinality value
  have hu : NoUnion (.object members) := fun _ => Json.noConfusion
  have hnull : isNull (.object members) = false := by
    rw [isNull, hk]
    rfl
  rw [formGives_union_iff space r r' t default cardinality value _
    fun b => by simp only [ne_eq, List.cons.injEq, List.cons_ne_self, and_false, not_false_eq_true]]
  simp only [leads_beside_null_iff n _ _ hn, hnull, true_and, exists_eq_left', BranchGives]
  cases ha : arrayItems? (.object members) with
  | none =>
      -- Without items it is not read at all.
      have hnot := not_reading_of_kind_array space r r' members t hk
      rw [formGives_iff_of_plain space r r' t default cardinality value _ hu ha]
      simp only [hnot, and_false]
  | some items =>
      rw [formGives_iff_of_list space r r' t default cardinality value _ items ha]
      have hvalue : listDefault default = default.elim .emptyList .literal := by
        cases default with
        | none => rfl
        | some v =>
            cases v with
            | null => exact absurd rfl hd
            | bool _ | int _ | float _ | string _ | array _ | object _ => rfl
      rw [hvalue]

/-- Documents stay alike when one is rewritten. -/
theorem alike_of_rewrite (place : Place) (a b : Json) (h : Rewrite place a b) :
    Alike place a b := by
  -- One case for each rule. A rule for a part carries what is alike in the part over to the whole.
  induction h with
  | primitive name a b hn ha hb => exact alike_primitive name a b hn ha hb
  | swap a b _ => exact alike_swap a b
  | null a b front back ha hb =>
      refine alike_union_of_branch a b front back ⟨ha.trans hb.symm, fun hn => ?_⟩
      exact absurd (ha.symm.trans hn) Bool.noConfusion
  | nullableItems n items hn hu => exact alike_nullableItems n items hn hu
  | wrap default a => exact alike_wrap default a
  | nullableList default n members hn hk hd => exact alike_nullableList default n members hn hk hd
  | record members members' field field' front back schema schema' hk h hf _ ih =>
      refine alike_record members members' _ _ hk h fun space r fields r' => ?_
      exact fieldsGive_iff_of_replaced front back _ _
        (fun space r read r' => fieldGives_iff_of_replaced field field' schema schema' hf ih space r
          r' read) space r r' fields
  | wrapped members members' nested nested' h _ ih =>
      exact alike_wrapped members members' nested nested' h ih
  | wrappedUnion members members' branches branches' h _ _ =>
      exact alike_wrappedUnion members members' branches branches' h
  | list members members' items items' hk h _ ih =>
      exact alike_list members members' items items' hk h ih
  | map members members' _ values values' hk h _ _ =>
      exact alike_map members members' values values' hk h
  | within a b front back _ ih =>
      exact alike_union_of_branch a b front back ⟨ih.1.null, fun _ => ih.1⟩
  | withinUnion a b front back _ ih => exact alike_withinUnion a b front back ih
  | type a b _ ih => exact ih.1.reads
  | typeUnion a b _ ih => exact alike_typeUnion a b ih
  | item a b _ ih => exact alike_item a b ih
  | itemUnion a b _ ih => exact alike_itemUnion a b ih
  | plain default a b _ ih => exact ih.1.forms default
  | fieldUnion default a b _ ih => exact alike_fieldUnion default a b ih
  | single default a b _ ih => exact alike_single default a b ih

/-- Documents are read as the same types after any number of rewritings. -/
theorem readAlike_of_rewrites (d d' : Json)
    (h : Relation.ReflTransGen (Rewrite .type) d d') : ReadAlike d d' := by
  induction h with
  | refl => exact fun _ _ _ _ => Iff.rfl
  | tail _ step ih =>
      have hstep := alike_of_rewrite .type _ _ step
      exact fun space r t r' => (ih space r t r').trans (hstep space r t r')

/-! ### Exports under another token -/

/-- What is exported of fields is not what they are stamped with. -/
theorem exportFields_map_stamp (exp : Ty → Export Json) (owner : Owner) (fields : List Field) :
    exportFields exp (fields.map (·.stamp owner)) = exportFields exp fields := by
  induction fields with
  | nil => rfl
  | cons field fields ih =>
      rw [List.map_cons, exportFields, exportFields, ih]
      rfl

/-- Registries whose structs are the same but for stamps export alike. -/
theorem exportTypeAt_eq_of_stamped (r r' : Registry) (owner : Nat → Owner)
    (hs : ∀ i, r'.struct i = { r.struct i with
      fields := (r.struct i).fields.map fun fields => fields.map (·.stamp (owner i)) })
    (he : ∀ i, r'.enumeration i = r.enumeration i) (depth : Nat) :
    exportTypeAt r' depth = exportTypeAt r depth := by
  -- An export reads names, documentation and fields, and of a field all but its stamp.
  have hname : ∀ h, r'.nameOf h = r.nameOf h := by
    intro h
    cases h with
    | struct i => rw [Registry.nameOf, Registry.namesOf, hs i]; rfl
    | enumeration i => rw [Registry.nameOf, Registry.namesOf, he i]; rfl
  have hwith : ∀ exp, exportTypeWith r' exp = exportTypeWith r exp := by
    intro exp
    have hdefinition : exportDefinition r' exp = exportDefinition r exp := by
      funext h
      cases h with
      | enumeration i => rw [exportDefinition, exportDefinition, he i]
      | struct i =>
          rw [exportDefinition, exportDefinition, hs i]
          cases hf : (r.struct i).fields with
          | none => rfl
          | some fields =>
              simp only [Option.map_some, exportFields_map_stamp]
              rfl
    have hnamed : exportNamed r' exp = exportNamed r exp := by
      funext h
      rw [exportNamed, exportNamed, hname h, hdefinition]
    funext t
    rw [exportTypeWith, exportTypeWith, hnamed]
  induction depth with
  | zero => exact hwith _
  | succ depth ih => rw [exportTypeAt, exportTypeAt, ih, hwith]

end Avro

open Avro

/-- A graph is exported alike under another token. -/
theorem toSchema_beside_new (token : Nat) (g : Registry) (t : Ty) :
    toSchema ((Registry.new token).beside g) t = toSchema g t := by
  have hlen : ((Registry.new token).beside g).structs.length = g.structs.length := by
    rw [Registry.length_structs_beside]
    exact Nat.zero_add _
  -- Behind no types every struct keeps its place, and only the stamps of the fields change.
  have hstruct : ∀ i, ((Registry.new token).beside g).struct i = { g.struct i with
      fields := (g.struct i).fields.map fun fields => fields.map (·.stamp ⟨token, i⟩) } := by
    intro i
    by_cases hi : i < g.structs.length
    · have hbehind := (Registry.new token).struct_beside g i hi
      have hplace : (Registry.new token).structs.length + i = i := Nat.zero_add i
      rw [hplace] at hbehind
      rw [hbehind, StructType.behind, hplace]
      simp only [Field.behind, Ty.behind_new]
      rfl
    · rw [Registry.struct, Registry.struct, List.getD_eq_getElem?_getD,
        List.getD_eq_getElem?_getD, List.getElem?_eq_none (Nat.le_of_not_lt hi),
        List.getElem?_eq_none (Nat.le_of_not_lt (hlen ▸ hi))]
      rfl
  have henum : ∀ i, ((Registry.new token).beside g).enumeration i = g.enumeration i := by
    intro i
    rw [← (Registry.new token).enumeration_beside g i]
    exact congrArg _ (Nat.zero_add i).symm
  rw [toSchema_eq, toSchema_eq, exportType, exportType, hlen,
    exportTypeAt_eq_of_stamped g _ (fun i => ⟨token, i⟩) hstruct henum]

/-- What a document is imported as under another token. -/
theorem fromSchema_other_token (token token' : Nat) (d : Json) (g : Registry) (t : Ty)
    (h : fromSchema token d = .ok (g, t)) :
    fromSchema token' d = .ok ((Registry.new token').beside g, t) := by
  have hnone : ∀ name, ¬ (Registry.new token').Carried name :=
    fun name ⟨handle, hh, _⟩ => not_holds_new token' handle hh
  have himport := importSchema_beside (.new token') token d g t h
    (Registry.tidy_new token').distinct
    (fun ⟨_, _, _, _, hc⟩ => hnone _ hc) (fun ⟨_, _, _, _, hc⟩ => hnone _ hc)
  rw [Ty.behind_new] at himport
  rw [fromSchema, himport]

/-- Documents that differ by rewritings of the fields of their records, however many and however
    deep, are both imported or neither is. The graphs are equal, and they are exported as one
    document. -/
theorem fromSchema_rewrite (d d' : Json) (h : Relation.ReflTransGen (Rewrite .type) d d')
    (token token' : Nat) :
    ((∃ g t, fromSchema token d = .ok (g, t)) ↔ ∃ g' t', fromSchema token' d' = .ok (g', t')) ∧
    ∀ g t g' t', fromSchema token d = .ok (g, t) → fromSchema token' d' = .ok (g', t') →
      g.sameType t g' t' = true ∧ ∃ e, toSchema g t = .ok e ∧ toSchema g' t' = .ok e := by
  have halike := readAlike_of_rewrites d d' h
  have hone : ∀ token g t, fromSchema token d = .ok (g, t) ↔ fromSchema token d' = .ok (g, t) := by
    intro token g t
    rw [fromSchema_eq_ok_iff, fromSchema_eq_ok_iff]
    exact halike none (.new token) t g
  refine ⟨⟨?_, ?_⟩, ?_⟩
  · -- The token of a registry does not decide whether a document is imported.
    rintro ⟨g, t, hd⟩
    exact ⟨_, t, (hone token' _ t).mp (fromSchema_other_token token token' d g t hd)⟩
  · rintro ⟨g, t, hd⟩
    exact ⟨_, t, (hone token _ t).mpr (fromSchema_other_token token' token d' g t hd)⟩
  · intro g t g' t' hd hd'
    have hother := (hone token' _ t).mp (fromSchema_other_token token token' d g t hd)
    rw [hd', Except.ok.injEq, Prod.mk.injEq] at hother
    -- So the second graph is the first one behind an empty registry with the other token.
    rcases hother with ⟨rfl, rfl⟩
    have hrange := inRange_fromSchema token d g t' hd
    refine ⟨?_, ?_⟩
    · have hsame := Registry.sameType_of_copies (.new token) (.new token') g g
        ((Registry.new token').beside g) hrange.1 (Registry.hasCopy_self g token)
        (Registry.hasCopy_beside (.new token') g) t' hrange.2
      rwa [Ty.behind_new, Ty.behind_new] at hsame
    · rcases plain_of_import token d g t' hd with ⟨hp, _, _⟩
      rcases exists_export g t' hp.complete with ⟨e, refs, final, hwalk⟩
      have hexport := (toSchema_eq_ok_iff g t' e).mpr ⟨refs, final, hwalk⟩
      exact ⟨e, hexport, (toSchema_beside_new token' g t').trans hexport⟩

namespace Sample

/-- A record with one field of some type. -/
def postOf (schema : Json) : Json :=
  .object [("fields", .array [.object [("name", .string "tags"), ("type", schema)]]),
    ("name", .string "Post"), ("type", .string "record")]

/-- A text with a logical type that nobody knows. -/
def uuidSchema : Json :=
  .object [("logicalType", .string "uuid"), ("type", .string "string")]

/-- The types of fields are rewritten within their records. -/
theorem postOf_rewrites (schema schema' : Json)
    (h : Relation.ReflTransGen (Rewrite (.field none)) schema schema') :
    Relation.ReflTransGen (Rewrite .type) (postOf schema) (postOf schema') := by
  refine h.lift postOf fun a b step => ?_
  refine .type _ _ (.record _ _ [("name", .string "tags"), ("type", a)]
    [("name", .string "tags"), ("type", b)] [] [] a b (Or.inl rfl) ⟨rfl, rfl, fun k hk => ?_⟩
    ⟨rfl, rfl, fun k hk => ?_⟩ step)
  · simp only [Json.find?, hk.symm, if_false]
  · simp only [Json.find?, hk.symm, if_false]

end Sample

open Sample

/-- A list of texts is a union of one branch, a list or null of texts or null with a logical
    type. -/
theorem tags_rewrites : Relation.ReflTransGen (Rewrite (.field none))
    (arraySchema (.string "string"))
    (.array [.array [.string "null", arraySchema (.array [.string "null", uuidSchema])]]) := by
  have hlist : ∀ items items', Rewrite .items items items' →
      Rewrite (.field none) (arraySchema items) (arraySchema items') := by
    intro items items' step
    refine .plain none _ _ (.list _ _ items items' rfl ⟨rfl, rfl, fun k hk => ?_⟩ step)
    simp only [Json.find?, hk.symm, if_false]
  have huuid : Rewrite .items (.string "string") uuidSchema :=
    .item _ _ (.primitive "string" _ _ (by decide) .text (.object _ rfl fun logical hl => by
      rw [show text? _ "logicalType" = some "uuid" from rfl, Option.some.injEq] at hl
      rw [← hl]
      decide))
  -- A logical type for the texts, null beside them, a
  -- union around the list, and a union around that.
  refine .tail (.tail (.tail (.single (hlist _ _ huuid)) (hlist _ _ (.nullableItems (.string "null")
    uuidSchema rfl fun _ => Json.noConfusion))) (.nullableList none (.string "null") _ rfl rfl ?_))
    (.wrap none _)
  exact (Option.some_ne_none _).symm

theorem fromSchema_rewrite_tags : ∃ g t g' t',
    fromSchema 0 (postOf (arraySchema (.string "string"))) = .ok (g, t) ∧
    fromSchema 1 (postOf (.array [.array [.string "null",
      arraySchema (.array [.string "null", uuidSchema])]])) = .ok (g', t') ∧
    g.sameType t g' t' = true := by
  rcases fromSchema_rewrite _ _ (postOf_rewrites _ _ tags_rewrites) 0 1 with ⟨hiff, hsame⟩
  have hplain : ∃ g t, fromSchema 0 (postOf (arraySchema (.string "string"))) = .ok (g, t) :=
    ⟨_, _, rfl⟩
  rcases hplain with ⟨g, t, h⟩
  rcases hiff.mp ⟨g, t, h⟩ with ⟨g', t', h'⟩
  exact ⟨g, t, g', t', h, h', (hsame g t g' t' h h').1⟩

end Schemata
