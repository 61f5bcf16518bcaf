import Schemata.Proofs.Registry.Changes

/-!
# Registries Without Documentation

What is left of a registry when nothing is said of its types and fields.

Two registries that differ in what is said of types and fields, at any number
of places, are the same without their documentation. That is how they are
compared here: `Registry.undocumented` takes all documentation away, and an
equation between two registries without it says that they agree in all else, in
their names, in the symbols of enums, and in the types, cardinalities, defaults
and owners of fields.

A change that documents something keeps what is left, at whatever node it is and
whether it succeeds or not (`Registry.undocumented_after`). So does any number of
them (`Registry.undocumented_undergo`).

## Main definitions

* `Field.undocumented`, `StructType.undocumented`, `EnumType.undocumented`,
  `Registry.undocumented`: All but what is said of it.
* `Change.Documents`: The change documents something and renames nothing.

## Theorems

* `Registry.undocumented_perform`: A change that documents keeps what is left.
* `Registry.undocumented_undergo`: So do changes one after the other.
* `Registry.exists_struct_of_undocumented`,
  `Registry.exists_enumeration_of_undocumented`: What registries have in common
  that are the same without their documentation.
-/

namespace Schemata

/-- The field without its documentation. -/
def Field.undocumented (field : Field) : Field :=
  { field with documentation := none }

/-- The struct without its documentation and without that of its fields. -/
def StructType.undocumented (s : StructType) : StructType :=
  { s with documentation := none, fields := s.fields.map (·.map Field.undocumented) }

/-- The enum without its documentation. -/
def EnumType.undocumented (e : EnumType) : EnumType :=
  { e with documentation := none }

/-- The change documents something and renames nothing. -/
def Change.Documents (c : Change) : Prop :=
  ∃ documentation, c.revision = .document documentation

theorem Field.exists_of_undocumented (a b : Field) (h : a.undocumented = b.undocumented) :
    ∃ documentation, b = { a with documentation := documentation } := by
  refine ⟨b.documentation, ?_⟩
  cases a
  cases b
  simp only [undocumented, Field.mk.injEq, true_and] at h
  simp only [Field.mk.injEq, true_and]
  exact ⟨h.1.symm, h.2.1.symm, h.2.2.1.symm, h.2.2.2.1.symm, h.2.2.2.2.symm⟩

theorem EnumType.exists_of_undocumented (a b : EnumType) (h : a.undocumented = b.undocumented) :
    ∃ documentation, b = { a with documentation := documentation } := by
  refine ⟨b.documentation, ?_⟩
  cases a
  cases b
  simp only [undocumented, EnumType.mk.injEq, true_and] at h
  simp only [EnumType.mk.injEq, true_and]
  exact ⟨h.1.symm, h.2.1.symm, h.2.2.symm⟩

theorem StructType.exists_of_undocumented (a b : StructType) (h : a.undocumented = b.undocumented) :
    ∃ documentation fields, b = { a with documentation := documentation, fields := fields } ∧
      fields.map (·.map Field.undocumented) = a.fields.map (·.map Field.undocumented) := by
  refine ⟨b.documentation, b.fields, ?_, (congrArg StructType.fields h).symm⟩
  cases a
  cases b
  simp only [undocumented, StructType.mk.injEq, true_and] at h
  simp only [StructType.mk.injEq, and_self, and_true]
  exact h.1.symm

/-- What is said of a field of a struct is lost with the documentation. -/
theorem StructType.undocumented_documentAt (s : StructType) (position : Nat)
    (documentation : Option String) :
    (s.documentAt position documentation).undocumented = s.undocumented := by
  -- Field by field: the one at the position differs in its documentation at most.
  have hmap (fields : List Field) :
      (fields.modify position (·.withDocumentation documentation)).map Field.undocumented =
        fields.map Field.undocumented := by
    refine List.ext_getElem (by simp only [List.length_map, List.length_modify]) fun k _ _ => ?_
    rw [List.getElem_map, List.getElem_map, List.getElem_modify]
    split
    · rfl
    · rfl
  unfold undocumented documentAt
  rcases s.fields with _ | fields
  · rfl
  · simp only [Option.map_some, hmap]

namespace Registry

/-- The registry without all documentation. -/
def undocumented (r : Registry) : Registry :=
  { r with
    structs := r.structs.map StructType.undocumented
    enums := r.enums.map EnumType.undocumented }

section

variable (r r' : Registry)

theorem struct_undocumented (i : Nat) :
    r.undocumented.struct i = (r.struct i).undocumented := by
  simp only [struct, undocumented, List.getD_eq_getElem?_getD, List.getElem?_map]
  cases r.structs[i]? with
  | none => rfl
  | some s => rfl

theorem enumeration_undocumented (i : Nat) :
    r.undocumented.enumeration i = (r.enumeration i).undocumented := by
  simp only [enumeration, undocumented, List.getD_eq_getElem?_getD, List.getElem?_map]
  cases r.enums[i]? with
  | none => rfl
  | some e => rfl

/-! ### What registries have in common -/

section

variable (h : r.undocumented = r'.undocumented)

include h

theorem exists_enumeration_of_undocumented (i : Nat) :
    ∃ documentation, r'.enumeration i = { r.enumeration i with documentation := documentation } :=
  EnumType.exists_of_undocumented _ _ (by
    rw [← enumeration_undocumented, ← enumeration_undocumented, h])

theorem exists_struct_of_undocumented (i : Nat) :
    ∃ documentation fields,
      r'.struct i = { r.struct i with documentation := documentation, fields := fields } ∧
        fields.map (·.map Field.undocumented) =
          (r.struct i).fields.map (·.map Field.undocumented) :=
  StructType.exists_of_undocumented _ _ (by rw [← struct_undocumented, ← struct_undocumented, h])

theorem namesOf_of_undocumented (handle : Handle) : r'.namesOf handle = r.namesOf handle := by
  cases handle with
  | struct i =>
      rcases r.exists_struct_of_undocumented r' h i with ⟨_, _, hs, _⟩
      rw [namesOf, namesOf, hs]
  | enumeration i =>
      rcases r.exists_enumeration_of_undocumented r' h i with ⟨_, he⟩
      rw [namesOf, namesOf, he]

/-- The fields of a struct are the same but for what is said of them. -/
theorem exists_fields_of_undocumented (i : Nat) (fields : List Field)
    (hf : (r.struct i).fields = some fields) : ∃ fields',
      (r'.struct i).fields = some fields' ∧
        fields'.map Field.undocumented = fields.map Field.undocumented := by
  rcases r.exists_struct_of_undocumented r' h i with ⟨_, fields', hs, hmap⟩
  rw [hf, Option.map_some] at hmap
  rcases fields' with _ | fields'
  · exact nomatch hmap
  · rw [Option.map_some, Option.some.injEq] at hmap
    exact ⟨fields', congrArg StructType.fields hs, hmap⟩

end

/-! ### Changes that document -/

theorem undocumented_setStruct (i : Nat) (s : StructType)
    (h : s.undocumented = (r.struct i).undocumented) :
    (r.setStruct i s).undocumented = r.undocumented := by
  have hset : (r.setStruct i s).undocumented = r.undocumented.setStruct i s.undocumented := by
    simp only [undocumented, setStruct, List.map_set]
  rw [hset, h, ← struct_undocumented, setStruct_struct]

theorem setEnum_enumeration (i : Nat) : r.setEnum i (r.enumeration i) = r := by
  by_cases hi : i < r.enums.length
  · rw [setEnum, r.enumeration_eq_getElem i hi, List.set_getElem_self]
  · exact r.setEnum_eq_self i _ hi

theorem undocumented_setEnum (i : Nat) (e : EnumType)
    (h : e.undocumented = (r.enumeration i).undocumented) :
    (r.setEnum i e).undocumented = r.undocumented := by
  have hset : (r.setEnum i e).undocumented = r.undocumented.setEnum i e.undocumented := by
    simp only [undocumented, setEnum, List.map_set]
  rw [hset, h, ← enumeration_undocumented, setEnum_enumeration]

theorem undocumented_document (handle : Handle) (documentation : Option String) :
    (r.document handle documentation).undocumented = r.undocumented := by
  cases handle with
  | struct i => exact r.undocumented_setStruct i _ rfl
  | enumeration i => exact r.undocumented_setEnum i _ rfl

theorem undocumented_documentFieldAt (i position : Nat) (documentation : Option String) :
    (r.documentFieldAt i position documentation).undocumented = r.undocumented :=
  r.undocumented_setStruct i _ ((r.struct i).undocumented_documentAt position documentation)

/-- A change that documents something keeps what is left. -/
theorem undocumented_perform (c : Change) (hc : c.Documents) (h : r.perform c = .ok r') :
    r'.undocumented = r.undocumented := by
  rcases hc with ⟨documentation, hc⟩
  rcases ha : r.addressed c with e | node
  · rw [perform_eq, ha] at h
    exact nomatch h
  · rw [r.perform_of_addressed c node ha, hc] at h
    cases node with
    | type handle => exact Except.ok.inj h ▸ r.undocumented_document handle documentation
    | field address => exact Except.ok.inj h ▸ r.undocumented_documentFieldAt _ _ documentation

theorem undocumented_after (c : Change) (hc : c.Documents) :
    (r.after c).undocumented = r.undocumented := by
  rcases h : r.perform c with e | r'
  · rw [r.after_of_error c e h]
  · rw [r.after_of_ok r' c h, r.undocumented_perform r' c hc h]

/-- Changes that document something keep what is left, one after the other. -/
theorem undocumented_undergo (changes : List Change) (hc : ∀ c ∈ changes, c.Documents) :
    (r.undergo changes).undocumented = r.undocumented := by
  induction changes generalizing r with
  | nil => rfl
  | cons c rest ih =>
      rw [List.forall_mem_cons] at hc
      rw [r.undergo_cons c rest, ih (r.after c) hc.2, r.undocumented_after c hc.1]

end

end Registry

end Schemata
