import Schemata.Fingerprint
import Schemata.Proofs.Avro.Accepted
import Schemata.Proofs.Avro.CanonicalForms
import Schemata.Proofs.Avro.Expressible
import Schemata.Proofs.Avro.Shapes
import Schemata.Proofs.Registry.Documentation

/-!
# Fingerprints and Documentation

What is said of types and fields has no part in the fingerprint.

Two registries that are the same without their documentation are exported side
by side. The exports meet the same types in the same order, define and refer to
the same ones, and write documents that are the same without their
documentation (`walk_of_undocumented`). Documentation lies as deep in a document
as a name does, so the documents nest equally deep. The rules of the schema
language look at nothing else: a graph that conforms also conforms when other
things are said of it, and it is read as the same schema
(`typeConforms_of_undocumented`).

Changes that document something are a case of this, and so the schema of an
export survives them, and the fingerprint with it.

## Main definitions

* `Json.undocumented`: A document without documentation.

## Theorems

* `Avro.walk_of_undocumented`: Exports of registries that differ in what is said.
* `Avro.depth_undocumented`: Documentation does not make an export deeper.
* `Avro.typeConforms_of_undocumented`: The rules do not look at documentation.
* `toAvro_of_undocumented`: What is said has no part in the schema.
* `exists_fingerprint`: There is a fingerprint unless a decimal is too large.
* `fingerprint_of_documents`: What is said has no part in it, however often it
  is changed.
-/

namespace Schemata

namespace Json

/-! ### Documents without documentation -/

mutual

/-- A schema document without the documentation of records, enums and fields. The default of a
    field is data, and stays as it is. -/
def undocumented : Json → Json
  | .array items => .array (undocumentedItems items)
  | .object members => .object (undocumentedMembers members)
  | json => json

/-- The items without documentation. -/
def undocumentedItems : List Json → List Json
  | [] => []
  | item :: rest => undocumented item :: undocumentedItems rest

/-- The members without documentation. -/
def undocumentedMembers : List (String × Json) → List (String × Json)
  | [] => []
  | (key, value) :: rest =>
    if key = "doc" then undocumentedMembers rest
    else if key = "default" then (key, value) :: undocumentedMembers rest
    else (key, undocumented value) :: undocumentedMembers rest

end

theorem undocumentedItems_eq (items : List Json) :
    undocumentedItems items = items.map undocumented := by
  induction items with
  | nil => rfl
  | cons item rest ih => rw [undocumentedItems, ih, List.map_cons]

theorem undocumentedMembers_append (a b : List (String × Json)) :
    undocumentedMembers (a ++ b) = undocumentedMembers a ++ undocumentedMembers b := by
  induction a with
  | nil => rfl
  | cons member rest ih =>
      rw [List.cons_append, undocumentedMembers, undocumentedMembers, ih]
      split
      · rfl
      split
      · rfl
      · rfl

theorem membersDepth_append (a b : List (String × Json)) :
    membersDepth (a ++ b) = max (membersDepth a) (membersDepth b) := by
  induction a with
  | nil => exact (Nat.zero_max _).symm
  | cons member rest ih => rw [List.cons_append, membersDepth, membersDepth, ih, Nat.max_assoc]

end Json

namespace Avro

open Json

/-! ### What is written -/

section

variable (names : Names) (space : Option String)

theorem undocumented_ofStrings (list : List String) :
    (ofStrings list).undocumented = ofStrings list := by
  rw [ofStrings, undocumented, undocumentedItems_eq, List.map_map]
  rfl

theorem undocumentedMembers_aliasMember :
    undocumentedMembers (aliasMember names) = aliasMember names := by
  unfold aliasMember
  split
  · rfl
  · rw [undocumentedMembers, if_neg (by decide), if_neg (by decide), undocumented_ofStrings]
    rfl

theorem undocumentedMembers_default (value : Option Json) :
    undocumentedMembers (member? "default" value) = member? "default" value := by
  cases value with
  | none => rfl
  | some value => rfl

theorem undocumentedMembers_docMember (documentation : Option String) :
    undocumentedMembers (docMember documentation) = [] := by
  cases documentation with
  | none => rfl
  | some text => rfl

theorem undocumentedMembers_nameMembers (name : String) :
    undocumentedMembers (nameMembers space name) = nameMembers space name := by
  unfold nameMembers
  split
  · rfl
  · rfl

theorem undocumented_enumSchema (e : EnumType) :
    (enumSchema space e).undocumented = enumSchema space e.undocumented := by
  simp only [enumSchema, undocumented, undocumentedMembers_append,
    undocumentedMembers_aliasMember, undocumentedMembers_default, undocumentedMembers_docMember,
    undocumentedMembers_nameMembers]
  simp [undocumentedMembers, undocumented, undocumented_ofStrings, EnumType.undocumented,
    EnumType.name, docMember, member?]

theorem undocumented_structSchema (s : StructType) (items : List Json) :
    (structSchema space s items).undocumented =
      structSchema space s.undocumented (items.map undocumented) := by
  simp only [structSchema, undocumented, undocumentedMembers_append,
    undocumentedMembers_aliasMember, undocumentedMembers_docMember,
    undocumentedMembers_nameMembers]
  simp [undocumentedMembers, undocumented, undocumentedItems_eq, StructType.undocumented,
    StructType.name, docMember, member?]

theorem undocumented_fieldType (type : Json) (cardinality : Cardinality) (default : Default) :
    (fieldType type cardinality default).1.undocumented =
        (fieldType type.undocumented cardinality default).1 ∧
      (fieldType type cardinality default).2 =
        (fieldType type.undocumented cardinality default).2 := by
  cases cardinality <;> cases default <;> exact ⟨rfl, rfl⟩

theorem undocumented_fieldSchema (field : Field) (type : Json) :
    (fieldSchema field type).undocumented =
      fieldSchema field.undocumented type.undocumented := by
  have htype := undocumented_fieldType type field.cardinality field.default
  simp only [fieldSchema_eq, fieldMembers, undocumented, undocumentedMembers_append,
    undocumentedMembers_aliasMember, undocumentedMembers_default, undocumentedMembers_docMember]
  simp [undocumentedMembers, undocumented, htype, Field.undocumented, Field.name, docMember,
    member?]

/-! ### Depth -/

theorem membersDepth_docMember (documentation : Option String) :
    membersDepth (docMember documentation) = 0 := by
  cases documentation with
  | none => rfl
  | some text => rfl

theorem depth_enumSchema (e : EnumType) :
    (enumSchema space e.undocumented).depth = (enumSchema space e).depth := by
  simp only [enumSchema, depth, membersDepth_append, membersDepth_docMember]
  rfl

/-- A struct is as deep as its fields make it. -/
theorem depth_structSchema (s : StructType) {items items' : List Json}
    (h : itemsDepth items' = itemsDepth items) :
    (structSchema space s.undocumented items').depth = (structSchema space s items).depth := by
  simp only [structSchema, depth, membersDepth, membersDepth_append, membersDepth_docMember, h]
  rfl

/-- A field is as deep as its type and its default make it. -/
theorem depth_fieldSchema (field : Field) (type type' : Json) (h : type'.depth = type.depth) :
    (fieldSchema field.undocumented type').depth = (fieldSchema field type).depth := by
  have htype (cardinality : Cardinality) (default : Default) :
      (fieldType type' cardinality default).1.depth = (fieldType type cardinality default).1.depth ∧
        (fieldType type' cardinality default).2 = (fieldType type cardinality default).2 := by
    cases cardinality <;> cases default <;>
      simp only [fieldType, arraySchema, depth, itemsDepth, membersDepth, h, and_self]
  simp only [fieldSchema_eq, fieldMembers, depth, membersDepth, membersDepth_append,
    membersDepth_docMember, Field.undocumented, Field.name, htype]

theorem itemsDepth_map (items : List Json)
    (h : ∀ item ∈ items, item.undocumented.depth = item.depth) :
    itemsDepth (items.map undocumented) = itemsDepth items := by
  induction items with
  | nil => rfl
  | cons item rest ih =>
      rw [List.forall_mem_cons] at h
      rw [List.map_cons, itemsDepth, itemsDepth, h.1, ih h.2]

/-- Documentation does not make an export deeper. -/
theorem depth_undocumented (outer : Option String) (doc : Json) (h : Spelled outer doc) :
    doc.undocumented.depth = doc.depth := by
  induction h with
  | name => rfl
  | logical _ primitive logical => rfl
  | decimal _ type =>
      rcases decimalSchema_cases type with ⟨_, h⟩ | ⟨_, h⟩ | ⟨_, _, h⟩ <;>
        rw [h] <;> rfl
  | enumeration outer e => rw [undocumented_enumSchema, depth_enumSchema]
  -- Documentation is a text, which adds no level, so only the fields count.
  | struct outer s fields docs _ ih =>
      rw [undocumented_structSchema]
      refine depth_structSchema _ s (itemsDepth_map _ fun item hm => ?_)
      rcases mem_zipWith fieldSchema fields docs item hm with ⟨field, doc, hdoc, rfl⟩
      rw [undocumented_fieldSchema]
      exact depth_fieldSchema field _ _ (ih doc hdoc)

end

/-! ### Exports -/

section

variable (r r' : Registry) (h : r.undocumented = r'.undocumented)

include h

/-- Registries that differ in what is said are exported to documents that differ in it. -/
theorem walk_of_undocumented (space : Option String) (written written' : Written)
    (ts : List Ty) (es : List Json) (refs : List Reference)
    (hw : Walk r space written ts es refs written') :
    ∃ es', Walk r' space written ts es' refs written' ∧
      es'.map undocumented = es.map undocumented := by
  have hname (handle : Handle) : r'.nameOf handle = r.nameOf handle :=
    congrArg Names.name (r.namesOf_of_undocumented r' h handle)
  induction hw with
  | nil space written => exact ⟨[], .nil space written, rfl⟩
  | scalar _ kind ht _ ih =>
      rcases ih with ⟨es', rest, hes⟩
      exact ⟨_, .scalar _ kind ht rest, congrArg (_ :: ·) hes⟩
  | decimal _ type ht _ ih =>
      rcases ih with ⟨es', rest, hes⟩
      exact ⟨_, .decimal _ type ht rest, congrArg (_ :: ·) hes⟩
  | reference _ handle ht hm _ ih =>
      rcases ih with ⟨es', rest, hes⟩
      refine ⟨_, .reference _ handle ht hm rest, ?_⟩
      rw [hname]
      exact congrArg (_ :: ·) hes
  | enumeration _ i ht hm _ ih =>
      rcases ih with ⟨es', rest, hes⟩
      refine ⟨_, .enumeration _ i ht hm rest, ?_⟩
      rw [List.map_cons, List.map_cons, hes, undocumented_enumSchema, undocumented_enumSchema,
        ← Registry.enumeration_undocumented, ← Registry.enumeration_undocumented, h]
  | @struct _ _ _ docs _ _ _ _ _ _ i fields ht hm hf _ _ ihb ihr =>
      rcases ihb with ⟨docs', body, hdocs⟩
      rcases ihr with ⟨es', rest, hes⟩
      rcases r.exists_fields_of_undocumented r' h i fields hf with ⟨fields', hf', hmap⟩
      -- The fields have other documentation and the same
      -- types, so the walk within them is the same.
      have htypes : fields'.map Field.type = fields.map Field.type := by
        have hundocumented (fields : List Field) :
            fields.map Field.type = (fields.map Field.undocumented).map Field.type := by
          rw [List.map_map]
          rfl
        rw [hundocumented, hmap, ← hundocumented]
      rw [← htypes] at body
      have hspace : namespaceOf? (r.struct i).name = namespaceOf? (r'.struct i).name :=
        congrArg namespaceOf? (hname (.struct i)).symm
      rw [hspace] at body
      refine ⟨_, .struct _ _ _ _ i fields' ht hm hf' body rest, ?_⟩
      have hfields (fields : List Field) (docs : List Json) :
          (fields.zipWith fieldSchema docs).map undocumented =
            (fields.map Field.undocumented).zipWith fieldSchema (docs.map undocumented) := by
        rw [List.map_zipWith, List.zipWith_map]
        simp only [undocumented_fieldSchema]
      rw [List.map_cons, List.map_cons, hes, undocumented_structSchema, undocumented_structSchema,
        hfields, hfields, hmap, hdocs, ← Registry.struct_undocumented,
        ← Registry.struct_undocumented, h]

/-! ### Rules -/

omit h in
/-- The names, types and defaults of fields are the same, whatever is said of them. -/
theorem fieldConforms_of_documentation (known : Environment) (depth : Nat) {field : Field}
    (schema : Schema) (documentation : Option String)
    (hf : FieldConforms known depth field schema) :
    FieldConforms known depth { field with documentation := documentation } schema :=
  ⟨hf.name, hf.branch, hf.default⟩

theorem enumConforms_of_undocumented (i : Nat) (seen seen' : Seen) (schema : Schema)
    (he : EnumConforms (r.enumeration i) seen schema seen') :
    EnumConforms (r'.enumeration i) seen schema seen' := by
  rcases r.exists_enumeration_of_undocumented r' h i with ⟨documentation, hd⟩
  rw [hd]
  exact ⟨he.names, he.symbols, he.read, he.met⟩

omit r r' h in
theorem exists_cons_of_undocumented {field : Field} (fields fields' : List Field)
    (h : fields'.map Field.undocumented = (field :: fields).map Field.undocumented) :
    ∃ documentation rest, fields' = { field with documentation := documentation } :: rest ∧
      rest.map Field.undocumented = fields.map Field.undocumented := by
  rcases fields' with _ | ⟨field', rest⟩
  · exact nomatch h
  · rw [List.map_cons, List.map_cons, List.cons.injEq] at h
    rcases Field.exists_of_undocumented field field' h.1.symm with ⟨documentation, rfl⟩
    exact ⟨documentation, rest, rfl, h.2⟩

/-- Fields that conform also conform when other things are said of them and of what they lead
    to. -/
theorem conforms_of_undocumented (depth : Nat) {space : Option String}
    {written written' : Written} {seen seen' : Seen} (fields : List Field) (slots : List Slot)
    (hc : Conforms r depth space written seen fields slots written' seen') (fields' : List Field)
    (hmap : fields'.map Field.undocumented = fields.map Field.undocumented) :
    Conforms r' depth space written seen fields' slots written' seen' := by
  have hnames (handle : Handle) : r'.namesOf handle = r.namesOf handle :=
    r.namesOf_of_undocumented r' h handle
  induction hc generalizing fields' with
  | nil space written seen =>
      rw [List.map_nil, List.map_eq_nil_iff] at hmap
      rw [hmap]
      exact .nil space written seen
  | leaf schema ht hf _ ih =>
      rcases exists_cons_of_undocumented _ fields' hmap with ⟨doc, rest, rfl, hrest⟩
      exact .leaf schema ht (fieldConforms_of_documentation _ depth schema doc hf) (ih rest hrest)
  | @reference space _ _ seen _ field _ _ handle schema ht hm hs hf _ ih =>
      rcases exists_cons_of_undocumented _ fields' hmap with ⟨doc, rest, rfl, hrest⟩
      -- How a field is read does not depend on what is said of it.
      have hs' : fieldRead? seen space { field with documentation := doc } (r'.nameOf handle) =
          some schema := by
        rw [Registry.nameOf, hnames]
        exact hs
      exact .reference handle schema ht hm hs'
        (fieldConforms_of_documentation _ depth schema doc hf) (ih rest hrest)
  | enumeration _ i schema ht hm he hf _ ih =>
      rcases exists_cons_of_undocumented _ fields' hmap with ⟨doc, rest, rfl, hrest⟩
      exact .enumeration _ i schema ht hm (enumConforms_of_undocumented r r' h i _ _ schema he)
        (fieldConforms_of_documentation _ depth schema doc hf) (ih rest hrest)
  | struct _ own _ i schema ht hm hn ho _ hs hseen hf _ ihb ihr =>
      rcases exists_cons_of_undocumented _ fields' hmap with ⟨doc, rest, rfl, hrest⟩
      rcases r.exists_fields_of_undocumented r' h i own ho with ⟨own', ho', hown⟩
      have hstruct : (r'.struct i).names = (r.struct i).names := hnames (.struct i)
      have hname : (r'.struct i).name = (r.struct i).name := congrArg Names.name hstruct
      have body := ihb own' hown
      rw [← hstruct, ← hname] at body
      rw [← hname] at hs
      rw [← hstruct, ← hname] at hseen
      exact .struct _ own' _ i schema ht hm (hstruct ▸ hn) ho' body hs hseen
        (fieldConforms_of_documentation _ depth schema doc hf) (ihr rest hrest)

/-- A type that conforms also does when other things are said, and is read as the same schema. -/
theorem typeConforms_of_undocumented (depth : Nat) (root : Ty) (schema : Schema)
    (hc : TypeConforms r depth root schema) : TypeConforms r' depth root schema := by
  cases hc with
  | leaf ht => exact .leaf ht
  | enumeration i seen ht he =>
      exact .enumeration i seen ht (enumConforms_of_undocumented r r' h i _ seen schema he)
  | struct i own written seen ht ho hs =>
      rcases hs with ⟨hn, inner, seen₁, body, hschema, hseen⟩
      rcases r.exists_fields_of_undocumented r' h i own ho with ⟨own', ho', hown⟩
      -- Names are no documentation, so all that the check asks of them is as before.
      have hstruct : (r'.struct i).names = (r.struct i).names :=
        r.namesOf_of_undocumented r' h (.struct i)
      have hname : (r'.struct i).name = (r.struct i).name := congrArg Names.name hstruct
      have body' := conforms_of_undocumented r r' h depth own inner body own' hown
      rw [← hstruct, ← hname] at body'
      rw [← hname] at hschema
      rw [← hstruct, ← hname] at hseen
      exact .struct i own' written seen ht ho' ⟨hstruct ▸ hn, inner, seen₁, body', hschema, hseen⟩

end

end Avro

open Avro

/-- What is said of types and fields has no part in the schema, and little in the export. -/
theorem toAvro_of_undocumented (r r' : Registry) (hr : r.Tidy) (hr' : r'.Tidy)
    (h : r.undocumented = r'.undocumented) (root : Ty) (schema : Schema)
    (hs : toAvro r root = .ok schema) :
    (∃ e e', toSchema r root = .ok e ∧ toSchema r' root = .ok e' ∧
      e'.undocumented = e.undocumented) ∧ toAvro r' root = .ok schema := by
  rcases (toAvro_eq_ok_iff r hr root schema).mp hs with ⟨e, he, hc⟩
  rcases (toSchema_eq_ok_iff r root e).mp he with ⟨refs, written, hwalk⟩
  rcases walk_of_undocumented r r' h none [] written [root] [e] refs hwalk with ⟨es', hwalk', hmap⟩
  rw [List.map_singleton, List.map_eq_singleton_iff] at hmap
  rcases hmap with ⟨e', rfl, hund⟩
  have he' := (toSchema_eq_ok_iff r' root e').mpr ⟨refs, written, hwalk'⟩
  have hspelled := spelled_of_walk r none [] written [root] [e] refs hwalk none rfl e
    List.mem_cons_self
  have hspelled' := spelled_of_walk r' none [] written [root] [e'] refs hwalk' none rfl e'
    List.mem_cons_self
  -- Both exports are as deep as they are without documentation.
  have hdepth : e'.depth = e.depth := by
    rw [← depth_undocumented none e' hspelled', hund, depth_undocumented none e hspelled]
  refine ⟨⟨e, e', he, he', hund⟩, (toAvro_eq_ok_iff r' hr' root schema).mpr ⟨e', he', ?_⟩⟩
  rw [hdepth]
  exact typeConforms_of_undocumented r r' h e.depth root schema hc

/-- The schema of an export has a fingerprint if no decimal in it is too large for one. -/
theorem exists_fingerprint (r : Registry) (hr : r.Tidy) (root : Ty) (schema : Schema)
    (hs : toAvro r root = .ok schema)
    (hd : ∀ type, r.Reaches root (.decimal type) → type.precision < Schema.numberLimit) :
    ∃ fingerprint, Fingerprint.of schema = .ok fingerprint := by
  rcases (toAvro_eq_ok_iff r hr root schema).mp hs with ⟨e, _, hc⟩
  rcases schema.exists_canonicalForm_iff.mpr (hc.narrow r root hd e.depth schema) with ⟨form, hf⟩
  rw [Fingerprint.of, hf]
  exact ⟨Fingerprint.ofCanonical form, rfl⟩

/-- Documentation does not change the fingerprint. After any number of changes that document
    types and fields, at any places, the export is the same but for its documentation, the rules
    of the schema language still accept it, and the schema has the same fingerprint. There is one
    unless a decimal is too large for it. -/
theorem fingerprint_of_documents (r : Registry) (hr : r.Built) (root : Ty) (schema : Schema)
    (hs : toAvro r root = .ok schema) (changes : List Change) (hc : ∀ c ∈ changes, c.Documents) :
    (∃ e e', toSchema r root = .ok e ∧ toSchema (r.undergo changes) root = .ok e' ∧
      e'.undocumented = e.undocumented) ∧
    ∃ schema', toAvro (r.undergo changes) root = .ok schema' ∧
      Fingerprint.of schema' = Fingerprint.of schema ∧
      ((∀ type, r.Reaches root (.decimal type) → type.precision < Schema.numberLimit) →
        ∃ fingerprint, Fingerprint.of schema' = .ok fingerprint) := by
  rcases toAvro_of_undocumented r (r.undergo changes) hr.tidy (hr.undergo r changes).tidy
    (r.undocumented_undergo changes hc).symm root schema hs with ⟨hexport, hs'⟩
  exact ⟨hexport, schema, hs', rfl, exists_fingerprint r hr.tidy root schema hs⟩

namespace Sample

/-- What is said of a list of items: of the items, of the colour that they lead to, and of the
    price, under the path of an item further behind. -/
def itemsExplained : List Change :=
  [.documentType (.struct 0) (some "One item of a list."),
    .edit 0 ⟨["next", "colour"]⟩ (.documentType "The colours that are in stock."),
    .edit 0 ⟨["next", "next", "price"]⟩ (.documentField "With taxes.")]

end Sample

open Sample

theorem fingerprint_of_documents_items :
    ((items.undergo itemsExplained).enumeration 0).documentation =
        some "The colours that are in stock." ∧
      ∃ schema schema' fingerprint, toAvro items (.named (.struct 0)) = .ok schema ∧
        toAvro (items.undergo itemsExplained) (.named (.struct 0)) = .ok schema' ∧
        Fingerprint.of schema = .ok fingerprint ∧ Fingerprint.of schema' = .ok fingerprint := by
  have hsome : (toAvro items (.named (.struct 0))).toOption.isSome = true := by decide +kernel
  rcases hs : toAvro items (.named (.struct 0)) with e | schema
  · rw [hs] at hsome
    exact absurd hsome Bool.false_ne_true
  have hdocuments : ∀ c ∈ itemsExplained, c.Documents := by
    simp only [itemsExplained, List.forall_mem_cons]
    exact ⟨⟨_, rfl⟩, ⟨_, rfl⟩, ⟨_, rfl⟩, fun c hm => absurd hm List.not_mem_nil⟩
  -- There is one decimal in the graph, and its precision is small.
  have hmoney : ∀ type, items.Reaches (.named (.struct 0)) (.decimal type) →
      type.precision < Schema.numberLimit := by
    intro type ht
    have hm := items_reaches _ ht
    simp only [List.mem_cons, Ty.decimal.injEq, reduceCtorEq, List.not_mem_nil, or_false,
      false_or] at hm
    rw [hm]
    decide
  rcases (fingerprint_of_documents items items_built _ schema hs itemsExplained hdocuments).2 with
    ⟨schema', hs', heq, hexists⟩
  rcases hexists hmoney with ⟨fingerprint, hf⟩
  exact ⟨by decide, schema, schema', fingerprint, rfl, hs', heq ▸ hf, hf⟩

end Schemata
