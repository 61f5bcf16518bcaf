import Schemata.Proofs.Avro.Parts

/-!
# Positions in a Document

Where a type stands within the document of another type.

A position is a path of numbers that goes down from a type to one of the types
that it is made of: a branch of a union, the items of a list, the type of a
field of a record. It takes a position to tell one part of a document from
another that reads the same. Positions are ordered as the parts follow one
another in the text, a record ahead of the types of its fields and these in
the order of the fields. Lists of numbers have this order in the library
already.

What is written around the type of a field, for it to be optional or a list,
is a step of its own. `typeSteps` says where within the whole the type itself
is, and `part?_fieldDocument` that apart from it there is nothing to find but
what has been put around it.

## Main definitions

* `Avro.parts`: The types that a type is made of.
* `Avro.part?`: The part at a position.
* `Avro.typeSteps`: Where the type itself stands in that of a field.
* `Avro.Surrounds`: What a cardinality puts around a type.

## Theorems

* `Avro.part?_append`: Positions within a part are positions within the whole.
* `Avro.parts_structSchema`: A record is made of the types of its fields.
* `Avro.part?_fieldDocument`: The parts of a field's type.
-/

namespace Schemata

namespace Avro

/-- The type of a field, as its document has it. -/
def typeMember? : Json → Option Json
  | .object members => Json.find? "type" members
  | _ => none

/-- The types that a type is made of, in the order in which they are written. -/
def parts : Json → List Json
  | .array branches => branches
  | .object members =>
    match Json.find? "type" members with
    | some (.string "array") => (Json.find? "items" members).toList
    | some (.string "record") | some (.string "error") =>
      match Json.find? "fields" members with
      | some (.array fields) => fields.filterMap typeMember?
      | _ => []
    | some (.string _) | none => []
    | some nested => [nested]
  | _ => []

/-- The part at a position. -/
def part? : List Nat → Json → Option Json
  | [], doc => some doc
  | k :: path, doc => (parts doc)[k]?.bind (part? path)

theorem part?_append (front path : List Nat) (doc : Json) :
    part? (front ++ path) doc = (part? front doc).bind (part? path) := by
  induction front generalizing doc with
  | nil => rfl
  | cons k front ih =>
      rw [List.cons_append, part?, part?]
      cases (parts doc)[k]? with
      | none => rfl
      | some part => exact ih part

/-- The parts of a union are those of its branches. -/
theorem part?_array (k : Nat) (path : List Nat) (branches : List Json) :
    part? (k :: path) (.array branches) = branches[k]?.bind (part? path) :=
  rfl

/-- A type that is made of no others has no part but itself. -/
theorem part?_of_parts_eq_nil (doc s : Json) (path : List Nat) (hd : parts doc = [])
    (h : part? path doc = some s) : path = [] ∧ s = doc := by
  cases path with
  | nil => exact ⟨rfl, (Option.some.inj h).symm⟩
  | cons k path =>
      rw [part?, hd, List.getElem?_nil, Option.bind_none] at h
      exact nomatch h

/-! ### What types are made of -/

theorem parts_scalarSchema (kind : ScalarKind) : parts (scalarSchema kind) = [] := by
  cases kind <;> rfl

theorem parts_decimalSchema (type : DecimalType) : parts (decimalSchema type) = [] := by
  rcases decimalSchema_cases type with ⟨_, h⟩ | ⟨_, h⟩ | ⟨_, _, h⟩ <;>
    rw [h] <;> rfl

theorem parts_enumSchema (space : Option String) (e : EnumType) :
    parts (enumSchema space e) = [] := by
  have hk : Json.find? "type" (enumMembers space e) = some (.string "enum") := by
    simp [enumMembers, docMember]
  rw [enumSchema_eq]
  simp only [parts, hk]
  rfl

/-- The document of the type of a field, given that of the type itself. -/
def fieldDocument (field : Field) (type : Json) : Json :=
  (fieldType type field.cardinality field.default).1

theorem filterMap_fieldSchema (fields : List Field) (docs : List Json) :
    (fields.zipWith fieldSchema docs).filterMap typeMember? =
      fields.zipWith fieldDocument docs := by
  induction fields generalizing docs with
  | nil => rfl
  | cons field fields ih =>
      cases docs with
      | nil => rfl
      | cons doc docs =>
          have hmember : typeMember? (fieldSchema field doc) = some (fieldDocument field doc) :=
            find?_type_fieldMembers field doc
          rw [List.zipWith_cons_cons, List.filterMap_cons_some hmember, ih,
            List.zipWith_cons_cons]

/-- A record is made of the types of its fields. -/
theorem parts_structSchema (space : Option String) (s : StructType) (fields : List Field)
    (docs : List Json) : parts (structSchema space s (fields.zipWith fieldSchema docs)) =
      fields.zipWith fieldDocument docs := by
  have hk : ∀ items, Json.find? "type" (structMembers space s items) = some (.string "record") :=
    fun items => by simp [structMembers, docMember]
  have hf : ∀ items, Json.find? "fields" (structMembers space s items) = some (.array items) :=
    fun items => by simp [structMembers, docMember]
  rw [structSchema_eq]
  simp only [parts, hk, hf]
  exact filterMap_fieldSchema fields docs

/-! ### Types of fields -/

/-- Where within the type of a field its type stands, without what makes it optional or a
    list. -/
def typeSteps (field : Field) : List Nat :=
  match field.cardinality, field.default with
  | .required, _ => []
  | .optional, .literal _ => [0]
  | .optional, _ => [1]
  | .repeated, _ => [0]

/-- The document is what a cardinality puts around a type. -/
def Surrounds (doc : Json) : Prop :=
  doc = .string "null" ∨ (∃ branches, doc = .array branches) ∨ ∃ items, doc = arraySchema items

/-- What is put around a type defines none. -/
theorem not_surrounds_of_isDefinition (members : Members) (h : IsDefinition members) :
    ¬ Surrounds (.object members) := by
  rintro (hs | ⟨branches, hs⟩ | ⟨items, hs⟩)
  · exact nomatch hs
  · exact nomatch hs
  · rw [Json.object.inj hs] at h
    exact not_isDefinition_of_kind _ "array" rfl (by decide) h

theorem part?_typeSteps (field : Field) (doc : Json) (path : List Nat) :
    part? (typeSteps field ++ path) (fieldDocument field doc) = part? path doc := by
  unfold typeSteps fieldDocument
  cases field.cardinality with
  | required => cases field.default <;> rfl
  | optional => cases field.default <;> rfl
  | repeated => cases field.default <;> rfl

/-- In a union of a type and null only the type has parts. -/
theorem part?_nullable (branches : List Json) (doc s : Json) (k : Nat) (path : List Nat)
    (hk : branches[k]? = some doc)
    (hnull : ∀ j branch, branches[j]? = some branch → j = k ∨ branch = .string "null")
    (h : part? path (.array branches) = some s) :
    (∃ rest, path = [k] ++ rest ∧ part? rest doc = some s) ∨ Surrounds s := by
  cases path with
  | nil => exact Or.inr (Or.inr (Or.inl ⟨branches, (Option.some.inj h).symm⟩))
  | cons j rest =>
      rw [part?_array, Option.bind_eq_some_iff] at h
      rcases h with ⟨branch, hj, h⟩
      rcases hnull j branch hj with rfl | rfl
      · rw [hk, Option.some.injEq] at hj
        exact Or.inl ⟨rest, rfl, hj ▸ h⟩
      · exact Or.inr (Or.inl (part?_of_parts_eq_nil _ s rest rfl h).2)

theorem part?_listed (doc s : Json) (path : List Nat)
    (h : part? path (arraySchema doc) = some s) :
    (∃ rest, path = [0] ++ rest ∧ part? rest doc = some s) ∨ Surrounds s := by
  cases path with
  | nil => exact Or.inr (Or.inr (Or.inr ⟨doc, (Option.some.inj h).symm⟩))
  | cons j rest =>
      have hitems : parts (arraySchema doc) = [doc] := rfl
      rw [part?, hitems, Option.bind_eq_some_iff] at h
      rcases h with ⟨item, hj, h⟩
      rw [List.getElem?_singleton] at hj
      -- A list has one part, its items.
      by_cases h0 : j = 0
      · rw [if_pos h0, Option.some.injEq] at hj
        exact Or.inl ⟨rest, by rw [h0]; rfl, hj ▸ h⟩
      · rw [if_neg h0] at hj
        exact nomatch hj

/-- What is found in the type of a field is within the type itself, or put around it. -/
theorem part?_fieldDocument (field : Field) (doc s : Json) (path : List Nat)
    (h : part? path (fieldDocument field doc) = some s) :
    (∃ rest, path = typeSteps field ++ rest ∧ part? rest doc = some s) ∨ Surrounds s := by
  -- A union has two branches, one of which is null.
  have hfront : ∀ j branch, [.string "null", doc][j]? = some branch →
      j = 1 ∨ branch = .string "null" := by
    intro j branch hj
    match j with
    | 0 => exact Or.inr (Option.some.inj hj).symm
    | 1 => exact Or.inl rfl
    | j + 2 => exact nomatch hj
  have hback : ∀ j branch, [doc, .string "null"][j]? = some branch →
      j = 0 ∨ branch = .string "null" := by
    intro j branch hj
    match j with
    | 0 => exact Or.inl rfl
    | 1 => exact Or.inr (Option.some.inj hj).symm
    | j + 2 => exact nomatch hj
  unfold typeSteps
  unfold fieldDocument at h
  cases hc : field.cardinality with
  | required =>
      refine Or.inl ⟨path, rfl, ?_⟩
      rw [hc] at h
      cases hd : field.default <;> rw [hd] at h <;> exact h
  | optional =>
      rw [hc] at h
      cases hd : field.default <;> rw [hd] at h
      case literal => exact part?_nullable _ doc s 0 path rfl hback h
      case none => exact part?_nullable _ doc s 1 path rfl hfront h
      case null => exact part?_nullable _ doc s 1 path rfl hfront h
  | repeated =>
      rw [hc] at h
      cases hd : field.default <;> rw [hd] at h <;> exact part?_listed doc s path h

/-! ### Records -/

section

variable (space : Option String) (struct : StructType) (fields : List Field) (docs : List Json)

/-- What is within the type of a field is within the record. -/
theorem part?_structSchema (k : Nat) (field : Field) (doc : Json) (path : List Nat)
    (hf : fields[k]? = some field) (hd : docs[k]? = some doc) :
    part? (k :: typeSteps field ++ path)
      (structSchema space struct (fields.zipWith fieldSchema docs)) = part? path doc := by
  have hk : (fields.zipWith fieldDocument docs)[k]? = some (fieldDocument field doc) :=
    List.getElem?_zipWith_eq_some.mpr ⟨field, doc, hf, hd, rfl⟩
  rw [List.cons_append, part?, parts_structSchema, hk, Option.bind_some, part?_typeSteps]

/-- What is found in a record is the record, or within the type of a field, or put around
    one. -/
theorem part?_structSchema_cases (s : Json) (path : List Nat)
    (h : part? path (structSchema space struct (fields.zipWith fieldSchema docs)) = some s) :
    (path = [] ∧ s = structSchema space struct (fields.zipWith fieldSchema docs)) ∨
      Surrounds s ∨ ∃ k field doc rest, fields[k]? = some field ∧ docs[k]? = some doc ∧
        path = k :: typeSteps field ++ rest ∧ part? rest doc = some s := by
  cases path with
  | nil => exact Or.inl ⟨rfl, (Option.some.inj h).symm⟩
  | cons k path =>
      rw [part?, parts_structSchema, Option.bind_eq_some_iff] at h
      rcases h with ⟨whole, hk, h⟩
      rcases List.getElem?_zipWith_eq_some.mp hk with ⟨field, doc, hf, hd, rfl⟩
      rcases part?_fieldDocument field doc s path h with ⟨rest, rfl, hrest⟩ | hs
      · exact Or.inr (Or.inr ⟨k, field, doc, rest, hf, hd, rfl, hrest⟩)
      · exact Or.inr (Or.inl hs)

end

end Avro

end Schemata
