import Schemata.Proofs.Registry.Reaches

/-!
# What Operations Do to a Registry

One statement for each operation that changes a registry: when it succeeds,
and which types stand behind which handles afterwards.

Two facts carry most of what is proved about registries. `Distinct` says that
no name is carried by two types, and `FieldsDistinct` that no name is carried
by two fields of a struct. A registry that has both is `Tidy`, and every
operation leaves it so.

Registration adds a type behind the others, so it keeps what was there in
place. `Below` is that relation: the types of one registry are the first types
of another. It is what an import in progress can rely on, whatever has been
registered in the meantime.

## Main definitions

* `FieldsDistinct`: No name is carried by two fields.
* `Registry.Tidy`: Names are distinct among types, and among the fields of each.
* `Registry.Below`: One registry starts with the types of another.

## Theorems

* `Registry.registerStruct_eq_ok_iff`, `Registry.registerEnum_eq_ok_iff`: When
  a type is registered, and what comes of it.
* `Registry.setFields_eq_ok_iff`: When fields are assigned.
* `Registry.distinct_appendStruct`, `Registry.distinct_appendEnum`: A type
  with unused names leaves names distinct.
* `Registry.Below.struct_eq`, `Registry.Below.namesOf_eq`: What was there stays.
-/

namespace Schemata

/-- No name is carried by two fields. -/
def FieldsDistinct (fields : List Field) : Prop :=
  (fields.flatMap (·.names.all)).Nodup

instance (fields : List Field) : Decidable (FieldsDistinct fields) :=
  inferInstanceAs (Decidable (List.Nodup _))

/-- A field as a struct takes it in. -/
def Field.stamp (field : Field) (owner : Owner) : Field :=
  { field with owner := owner }

namespace Registry

/-! ### Putting a struct in place -/

section

variable (r : Registry) (i j : Nat) (s : StructType)

theorem setStruct_length : (r.setStruct i s).structs.length = r.structs.length :=
  List.length_set

theorem struct_setStruct_self (hi : i < r.structs.length) : (r.setStruct i s).struct i = s := by
  rw [struct_eq_getElem _ _ (by rw [setStruct_length]; exact hi)]
  exact List.getElem_set_self _

theorem struct_setStruct_other (h : j ≠ i) : (r.setStruct i s).struct j = r.struct j := by
  simp only [struct, setStruct, List.getD_eq_getElem?_getD, List.getElem?_set_ne (Ne.symm h)]

/-- Nothing is put where there is no struct. -/
theorem setStruct_eq_self (hi : ¬ i < r.structs.length) : r.setStruct i s = r := by
  rw [setStruct, List.set_eq_of_length_le (Nat.le_of_not_lt hi)]

theorem setStruct_struct : r.setStruct i (r.struct i) = r := by
  by_cases hi : i < r.structs.length
  · rw [setStruct, r.struct_eq_getElem i hi, List.set_getElem_self]
  · exact r.setStruct_eq_self i _ hi

theorem holds_setStruct (h : Handle) : (r.setStruct i s).Holds h ↔ r.Holds h := by
  cases h with
  | struct j => rw [Holds, setStruct_length]; rfl
  | enumeration j => exact Iff.rfl

theorem namesOf_setStruct (h : Handle) (hn : s.names = (r.struct i).names) :
    (r.setStruct i s).namesOf h = r.namesOf h := by
  cases h with
  | struct j =>
      by_cases hj : j = i
      · by_cases hi : i < r.structs.length
        · rw [hj, namesOf, struct_setStruct_self r i s hi, hn, namesOf]
        · rw [r.setStruct_eq_self i s hi]
      · rw [namesOf, struct_setStruct_other r i j s hj, namesOf]
  | enumeration j => rfl

end

/-- Distinctness is a matter of the names of the types that there are. -/
theorem distinct_of_namesOf_eq (r r' : Registry) (hh : ∀ h, r'.Holds h → r.Holds h)
    (hn : ∀ h, r'.Holds h → r'.namesOf h = r.namesOf h) (hd : r.Distinct) : r'.Distinct := by
  intro h h' name hh' hh'' hc hc'
  rw [hn h hh'] at hc
  rw [hn h' hh''] at hc'
  exact hd h h' name (hh h hh') (hh h' hh'') hc hc'

/-! ### Registration -/

/-- The registry with one more struct. -/
def appendStruct (r : Registry) (s : StructType) : Registry :=
  { r with structs := r.structs ++ [s] }

/-- The registry with one more enum. -/
def appendEnum (r : Registry) (e : EnumType) : Registry :=
  { r with enums := r.enums ++ [e] }

/-- No type carries any of the names. -/
def Unused (r : Registry) (names : Names) : Prop :=
  ∀ name, names.Carries name → ∀ h, r.Holds h → ¬ (r.namesOf h).Carries name

theorem checkUnused_eq_ok_iff_unused (r : Registry) (names : Names) :
    r.checkUnused names = .ok () ↔ r.Unused names := by
  rw [checkUnused_eq_ok_iff]
  exact forall_congr' fun name => imp_congr_right fun _ => find?_eq_none_iff r name

/-- The error for names that are not free is about one of them. -/
theorem checkUnused_eq_error (r : Registry) (names : Names) (hu : ¬ r.Unused names) :
    ∃ name h, names.Carries name ∧ r.Holds h ∧ (r.namesOf h).Carries name ∧
      r.checkUnused names = .error (.conflict name .types) := by
  rw [← checkUnused_eq_ok_iff_unused] at hu
  unfold checkUnused at hu ⊢
  rcases hf : names.all.find? (fun name => (r.find? name).isSome) with _ | name
  · rw [hf] at hu
    exact absurd rfl hu
  · have hsome := List.find?_some hf
    rw [Option.isSome_iff_exists] at hsome
    rcases hsome with ⟨h, hh⟩
    have hcarried := r.find?_sound name h hh
    exact ⟨name, h, List.mem_of_find?_eq_some hf, hcarried.1, hcarried.2, rfl⟩

theorem registerStruct_eq_ok_iff (r r' : Registry) (s : StructType) (i : Nat) :
    r.registerStruct s = .ok (r', i) ↔
      r.Unused s.names ∧ r' = r.appendStruct s ∧ i = r.structs.length := by
  rw [← checkUnused_eq_ok_iff_unused]
  unfold registerStruct
  rcases hc : r.checkUnused s.names with e | u
  · simp only [bind, Except.bind, reduceCtorEq, false_and]
  · simp only [bind, Except.bind, pure, Except.pure, Except.ok.injEq, Prod.mk.injEq, true_and]
    exact ⟨fun h => ⟨h.1.symm, h.2.symm⟩, fun h => ⟨h.1.symm, h.2.symm⟩⟩

theorem registerEnum_eq_ok_iff (r r' : Registry) (e : EnumType) (i : Nat) :
    r.registerEnum e = .ok (r', i) ↔
      r.Unused e.names ∧ r' = r.appendEnum e ∧ i = r.enums.length := by
  rw [← checkUnused_eq_ok_iff_unused]
  unfold registerEnum
  rcases hc : r.checkUnused e.names with err | u
  · simp only [bind, Except.bind, reduceCtorEq, false_and]
  · simp only [bind, Except.bind, pure, Except.pure, Except.ok.injEq, Prod.mk.injEq, true_and]
    exact ⟨fun h => ⟨h.1.symm, h.2.symm⟩, fun h => ⟨h.1.symm, h.2.symm⟩⟩

section

variable (r : Registry) (s : StructType) (e : EnumType)

theorem struct_appendStruct_lt (i : Nat) (hi : i < r.structs.length) :
    (r.appendStruct s).struct i = r.struct i := by
  simp only [struct, appendStruct, List.getD_eq_getElem?_getD, List.getElem?_append_left hi]

theorem struct_appendStruct_length : (r.appendStruct s).struct r.structs.length = s := by
  simp only [struct, appendStruct, List.getD_eq_getElem?_getD, List.getElem?_concat_length,
    Option.getD_some]

theorem enumeration_appendEnum_lt (i : Nat) (hi : i < r.enums.length) :
    (r.appendEnum e).enumeration i = r.enumeration i := by
  simp only [enumeration, appendEnum, List.getD_eq_getElem?_getD, List.getElem?_append_left hi]

theorem enumeration_appendEnum_length : (r.appendEnum e).enumeration r.enums.length = e := by
  simp only [enumeration, appendEnum, List.getD_eq_getElem?_getD, List.getElem?_concat_length,
    Option.getD_some]

theorem holds_appendStruct_iff (h : Handle) :
    (r.appendStruct s).Holds h ↔ r.Holds h ∨ h = .struct r.structs.length := by
  cases h with
  | struct i =>
      simp only [Holds, appendStruct, List.length_append, List.length_singleton,
        Handle.struct.injEq]
      exact Nat.lt_succ_iff_lt_or_eq
  | enumeration i => simp only [Holds, appendStruct, reduceCtorEq, or_false]

theorem holds_appendEnum_iff (h : Handle) :
    (r.appendEnum e).Holds h ↔ r.Holds h ∨ h = .enumeration r.enums.length := by
  cases h with
  | struct i => simp only [Holds, appendEnum, reduceCtorEq, or_false]
  | enumeration i =>
      simp only [Holds, appendEnum, List.length_append, List.length_singleton,
        Handle.enumeration.injEq]
      exact Nat.lt_succ_iff_lt_or_eq

theorem namesOf_appendStruct (h : Handle) (hh : r.Holds h) :
    (r.appendStruct s).namesOf h = r.namesOf h := by
  cases h with
  | struct i => rw [namesOf, struct_appendStruct_lt r s i hh, namesOf]
  | enumeration i => rfl

theorem namesOf_appendEnum (h : Handle) (hh : r.Holds h) :
    (r.appendEnum e).namesOf h = r.namesOf h := by
  cases h with
  | struct i => rfl
  | enumeration i => rw [namesOf, enumeration_appendEnum_lt r e i hh, namesOf]

/-- One more type leaves names distinct if its own are unused. -/
theorem distinct_of_one_more (r r' : Registry) (new : Handle)
    (hh : ∀ h, r'.Holds h → r.Holds h ∨ h = new)
    (hn : ∀ h, r.Holds h → r'.namesOf h = r.namesOf h) (hu : r.Unused (r'.namesOf new))
    (hd : r.Distinct) : r'.Distinct := by
  intro h h' name hh' hh'' hc hc'
  rcases hh h hh' with hold | rfl <;> rcases hh h' hh'' with hold' | rfl
  · rw [hn h hold] at hc
    rw [hn h' hold'] at hc'
    exact hd h h' name hold hold' hc hc'
  · rw [hn h hold] at hc
    exact absurd hc (hu name hc' h hold)
  · rw [hn h' hold'] at hc'
    exact absurd hc' (hu name hc h' hold')
  · rfl

theorem distinct_appendStruct (hu : r.Unused s.names) (hd : r.Distinct) :
    (r.appendStruct s).Distinct := by
  refine distinct_of_one_more r _ (.struct r.structs.length)
    (fun h => (holds_appendStruct_iff r s h).mp) (namesOf_appendStruct r s) ?_ hd
  rw [namesOf, struct_appendStruct_length]
  exact hu

theorem distinct_appendEnum (hu : r.Unused e.names) (hd : r.Distinct) :
    (r.appendEnum e).Distinct := by
  refine distinct_of_one_more r _ (.enumeration r.enums.length)
    (fun h => (holds_appendEnum_iff r e h).mp) (namesOf_appendEnum r e) ?_ hd
  rw [namesOf, enumeration_appendEnum_length]
  exact hu

end

/-! ### Fields -/

theorem adopt_eq_ok_iff {s s' : StructType} {owner : Owner} {fields : List Field} :
    s.adopt owner fields = .ok s' ↔
      s.fields = none ∧ (∀ field ∈ fields, ∀ o ∈ field.owner, o = owner) ∧ FieldsDistinct fields ∧
        s' = { s with fields := some (fields.map (·.stamp owner)) } := by
  unfold StructType.adopt
  by_cases hs : s.fields.isSome = true
  · rw [if_pos hs]
    simp only [reduceCtorEq, false_iff, not_and]
    intro hn
    rw [hn] at hs
    exact nomatch hs
  rw [if_neg hs]
  -- The checks are made one after another: no fields yet, the owner, the names.
  have hnone : s.fields = none := by
    rwa [Bool.not_eq_true, Option.isSome_eq_false_iff, Option.isNone_iff_eq_none] at hs
  split
  · next field hf =>
      simp only [reduceCtorEq, false_iff, not_and]
      intro _ ho
      have hany := List.find?_some hf
      rw [Option.any_eq_true] at hany
      rcases hany with ⟨o, hmem, hne⟩
      exact absurd (ho field (List.mem_of_find?_eq_some hf) o hmem) (of_decide_eq_true hne)
  · next hf =>
      rw [List.find?_eq_none] at hf
      have howner : ∀ field ∈ fields, ∀ o ∈ field.owner, o = owner := by
        intro field hm o ho
        by_contra hne
        refine hf field hm ?_
        rw [Option.any_eq_true]
        exact ⟨o, ho, decide_eq_true hne⟩
      split
      · next name hr =>
          simp only [reduceCtorEq, false_iff, not_and]
          intro _ _ hd
          rw [FieldsDistinct, ← firstRepeated?_nil_eq_none_iff, hr] at hd
          exact nomatch hd
      · next hr =>
          rw [Except.ok.injEq]
          exact ⟨fun h => ⟨hnone, howner, firstRepeated?_nil_eq_none_iff.mp hr, h.symm⟩,
            fun h => h.2.2.2.symm⟩

theorem setFields_eq_ok_iff (r r' : Registry) (i : Nat) (fields : List Field) :
    r.setFields i fields = .ok r' ↔
      (r.struct i).fields = none ∧ (∀ field ∈ fields, ∀ o ∈ field.owner, o = r.owner i) ∧
        FieldsDistinct fields ∧ r' = r.setStruct i
          { r.struct i with fields := some (fields.map (·.stamp (r.owner i))) } := by
  unfold setFields
  rcases ha : (r.struct i).adopt (r.owner i) fields with e | s
  · simp only [bind, Except.bind, reduceCtorEq, false_iff]
    rintro ⟨hn, ho, hd, _⟩
    rw [adopt_eq_ok_iff.mpr ⟨hn, ho, hd, rfl⟩] at ha
    exact nomatch ha
  · simp only [bind, Except.bind, pure, Except.pure, Except.ok.injEq]
    rcases adopt_eq_ok_iff.mp ha with ⟨hn, ho, hd, rfl⟩
    exact ⟨fun h => ⟨hn, ho, hd, h.symm⟩, fun h => h.2.2.2.symm⟩

/-- No way goes through a struct without fields, so what is put in its place keeps all ways. -/
theorem sameWays_setStruct (r : Registry) (i : Nat) (s : StructType)
    (h : (r.struct i).fields = none) : r.SameWays (r.setStruct i s) := by
  intro j fields hf
  have hj : j ≠ i := by
    rintro rfl
    rw [h] at hf
    exact nomatch hf
  rw [← r.struct_setStruct_other i j s hj] at hf
  exact ⟨fields, hf, rfl⟩

/-! ### Registries that grow -/

/-- The types of the first registry are the first types of the second. -/
structure Below (r r' : Registry) : Prop where
  token : r'.token = r.token
  structs : r.structs <+: r'.structs
  enums : r.enums <+: r'.enums

namespace Below

theorem refl (r : Registry) : Below r r :=
  ⟨rfl, List.prefix_refl _, List.prefix_refl _⟩

variable {r r' r'' : Registry}

theorem trans (h : Below r r') (h' : Below r' r'') : Below r r'' :=
  ⟨h'.token.trans h.token, h.structs.trans h'.structs, h.enums.trans h'.enums⟩

theorem appendStruct (s : StructType) : Below r (r.appendStruct s) :=
  ⟨rfl, List.prefix_append _ _, List.prefix_refl _⟩

theorem appendEnum (e : EnumType) : Below r (r.appendEnum e) :=
  ⟨rfl, List.prefix_refl _, List.prefix_append _ _⟩

theorem struct_eq (h : Below r r') (i : Nat) (hi : i < r.structs.length) :
    r'.struct i = r.struct i := by
  rcases h.structs with ⟨more, he⟩
  simp only [struct, ← he, List.getD_eq_getElem?_getD, List.getElem?_append_left hi]

theorem enumeration_eq (h : Below r r') (i : Nat) (hi : i < r.enums.length) :
    r'.enumeration i = r.enumeration i := by
  rcases h.enums with ⟨more, he⟩
  simp only [enumeration, ← he, List.getD_eq_getElem?_getD, List.getElem?_append_left hi]

theorem holds (h : Below r r') (handle : Handle) (hh : r.Holds handle) : r'.Holds handle := by
  cases handle with
  | struct i => exact Nat.lt_of_lt_of_le hh h.structs.length_le
  | enumeration i => exact Nat.lt_of_lt_of_le hh h.enums.length_le

theorem namesOf_eq (h : Below r r') (handle : Handle) (hh : r.Holds handle) :
    r'.namesOf handle = r.namesOf handle := by
  cases handle with
  | struct i => rw [namesOf, h.struct_eq i hh, namesOf]
  | enumeration i => rw [namesOf, h.enumeration_eq i hh, namesOf]

theorem sameWays (h : Below r r') : SameWays r r' := by
  intro i fields hf
  rw [← h.struct_eq i (r.lt_of_struct_fields i fields hf)] at hf
  exact ⟨fields, hf, rfl⟩

/-- A struct that has been added last is still there when more has been added. -/
theorem lt_of_appendStruct {s : StructType} (h : Below (r.appendStruct s) r') :
    r.structs.length < r'.structs.length := by
  have hle := h.structs.length_le
  rw [Registry.appendStruct, List.length_append, List.length_singleton] at hle
  exact hle

theorem struct_of_appendStruct {s : StructType} (h : Below (r.appendStruct s) r') :
    r'.struct r.structs.length = s := by
  have hlt := (Below.refl (r.appendStruct s)).lt_of_appendStruct
  rw [h.struct_eq _ hlt, r.struct_appendStruct_length s]

/-- A struct behind the first types may be replaced. -/
theorem setStruct (h : Below r r') (i : Nat) (hi : r.structs.length ≤ i) {s : StructType} :
    Below r (r'.setStruct i s) := by
  refine ⟨h.token, ?_, h.enums⟩
  rcases h.structs with ⟨more, he⟩
  rw [Registry.setStruct, ← he, List.set_append_right _ _ hi]
  exact List.prefix_append _ _

end Below

/-- Names are distinct among the types, and among the fields of each struct. -/
structure Tidy (r : Registry) : Prop where
  distinct : r.Distinct
  fields : ∀ i fields, (r.struct i).fields = some fields → FieldsDistinct fields

end Registry

end Schemata
