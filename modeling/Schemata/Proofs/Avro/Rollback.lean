import Schemata.Proofs.Avro.Reading
import Schemata.Proofs.Registry.Index

/-!
# Imports That Fail

An import that fails leaves the registry as it was.

By the time an import fails it may have registered any number of types, some
of them still without fields. But registering types and assigning the fields of
those is all that it does. `Adds` says so of two registries, and every import leads
along it, whether it comes to a type or to an error. So all new types stand
behind the types that were there, and what is dropped at the end is exactly what
was added. The same goes for an index of names that is kept beside
the registry. The half-way registry has one, and what is left of it in the end
is the index from before.

A reading is of no use here, since it is only there if the import goes through.
The computation is followed as it is written instead.

## Main definitions

* `Registry.Adds`: A registry has come from another by adding types.

## Theorems

* `Registry.Adds.keeps`: The types that were there are there in front.
* `Registry.Adds.indexed`: Types may be added under the eyes of an index.
* `Avro.along_importTypeAt`: Imports only add types.
* `adds_of_importSchema`: An import that succeeds has only added types.
* `Registry.exists_halfway`, `Registry.adds_halfway`: An import that fails has added
  some, and is rolled back.
* `importSchema_eq_error`: An import that fails changes nothing.
-/

namespace Schemata

namespace Registry

/-- The registry has come from another by registering types, and by assigning fields to
    those. -/
inductive Adds (first : Registry) : Registry → Prop
  | refl : Adds first first
  | struct (r : Registry) (s : StructType) (hr : Adds first r) (hs : s.fields = none)
      (hu : r.Unused s.names) : Adds first (r.appendStruct s)
  | enumeration (r : Registry) (e : EnumType) (hr : Adds first r) (hu : r.Unused e.names) :
      Adds first (r.appendEnum e)
  | setFields (r r' : Registry) (i : Nat) (fields : List Field) (hr : Adds first r)
      (hi : first.structs.length ≤ i) (h : r.setFields i fields = .ok r') : Adds first r'

namespace Adds

variable {a b c : Registry}

theorem keeps (h : Adds a b) : Below a b := by
  induction h with
  | refl => exact .refl a
  | struct r s _ _ _ ih => exact ih.trans (.appendStruct s)
  | enumeration r e _ _ ih => exact ih.trans (.appendEnum e)
  | setFields r r' i fields _ hi h ih =>
      rcases (r.setFields_eq_ok_iff r' i fields).mp h with ⟨_, _, _, rfl⟩
      exact ih.setStruct i hi

theorem trans (h : Adds a b) (h' : Adds b c) : Adds a c := by
  -- What is behind the types of the second registry is behind those of the first.
  have hlength : a.structs.length ≤ b.structs.length := h.keeps.structs.length_le
  induction h' with
  | refl => exact h
  | struct r s _ hs hu ih => exact .struct r s ih hs hu
  | enumeration r e _ hu ih => exact .enumeration r e ih hu
  | setFields r r' i fields _ hi hf ih =>
      exact .setFields r r' i fields ih (Nat.le_trans hlength hi) hf

/-- Types may be added under the eyes of an index: it has the free names free. -/
theorem indexed (index : Index) (ha : Indexed a index) (h : Adds a b) :
    ∃ index', Indexed b index' := by
  -- On what is added. A type comes in only if its names are free, which the index knows.
  induction h with
  | refl => exact ⟨index, ha⟩
  | struct r s _ _ hu ih =>
      rcases ih with ⟨index', hr⟩
      have hfree := (hr.exact.free_iff index' r s.names).mpr hu
      exact ⟨_, .struct r index' s hr hfree⟩
  | enumeration r e _ hu ih =>
      rcases ih with ⟨index', hr⟩
      have hfree := (hr.exact.free_iff index' r e.names).mpr hu
      exact ⟨_, .enumeration r index' e hr hfree⟩
  | setFields r r' i fields _ _ hf ih =>
      rcases ih with ⟨index', hr⟩
      exact ⟨index', .setFields r r' index' i fields hr hf⟩

end Adds

instance : IsPreorder Registry Registry.Adds where
  refl _ := .refl
  trans _ _ _ hab hbc := hab.trans hbc

end Registry

namespace Avro

/-- Fields are assigned to a struct that was not there. -/
theorem adds_of_setFields (r r₁ r₂ : Registry) (u : Unit) (fields : List Field) (hb : r.Adds r₁)
    (h : (do return (← r₁.setFields r.structs.length fields, ()) :
      Except SchemaError (Registry × Unit)) = .ok (r₂, u)) : r.Adds r₂ := by
  rw [bind_eq_ok_iff] at h
  rcases h with ⟨r₃, hs, h⟩
  rw [pure_eq_ok_iff, Prod.mk.injEq] at h
  rw [← h.1]
  exact .setFields r₁ r₃ _ fields hb (Nat.le_refl _) hs

theorem along_importName (space : Option String) (name : String) :
    Along Registry.Adds (importName space name) := by
  unfold importName
  split
  · exact along_pure
  · split
    · exact along_throw
    · exact along_bind along_get fun r =>
        along_bind along_ofExcept fun h => along_pure

theorem along_importDecimal (members : Members) :
    Along Registry.Adds (importDecimal members) := by
  refine along_bind Building.along_ofShape fun precision => ?_
  cases precision with
  | none => exact along_throw
  | some precision =>
      exact along_bind Building.along_ofShape fun scale =>
        along_bind Building.along_ofConstruction fun type => along_pure

theorem along_importLogical (space : Option String) (name : String) (members : Members) :
    Along Registry.Adds (importLogical space name members) := by
  unfold importLogical
  split
  · exact along_importName space name
  · split
    · exact along_importDecimal members
    · split
      · exact along_pure
      · exact along_importName space name

theorem along_importEnum (enclosing : Option String) (members : Members) :
    Along Registry.Adds (importEnum enclosing members) := by
  refine along_bind Building.along_ofShape fun names => ?_
  refine along_bind Building.along_ofShape fun list => ?_
  refine along_bind Building.along_ofShape fun symbols => ?_
  refine along_bind Building.along_ofConstruction fun e => ?_
  refine along_bind (Building.along_update _ fun r r₁ i hreg => ?_) fun i => along_pure
  rcases (r.registerEnum_eq_ok_iff r₁ e i).mp hreg with ⟨hu, rfl, _⟩
  exact .enumeration r e .refl hu

section

variable (importType : Option String → Json → Building Ty)
  (himp : ∀ space json, Along Registry.Adds (importType space json))

include himp

theorem along_importField (space : Option String) (field : Json) :
    Along Registry.Adds (importField importType space field) := by
  -- Only an object is a field, and each step of its import adds at most.
  cases field with
  | object members =>
      rw [importField]
      split
      · exact along_throw
      · split
        · exact along_throw
        · refine along_bind Building.along_ofShape fun form => ?_
          refine along_bind (himp space form.type) fun type => ?_
          refine along_bind Building.along_ofShape fun list => ?_
          refine along_bind Building.along_ofConstruction fun named => ?_
          exact along_bind Building.along_ofConstruction fun field => along_pure
  | null | bool _ | int _ | float _ | string _ | array _ => exact along_throw

theorem along_importFields (space : Option String) (items : List Json) :
    Along Registry.Adds (importFields importType space items) := by
  induction items with
  | nil => exact along_pure
  | cons item items ih =>
      exact along_bind (along_importField importType himp space item) fun field =>
        along_bind ih fun fields => along_pure

/-- A record is registered behind the types that were there, so its fields are too. -/
theorem along_importRecord (enclosing : Option String) (members : Members) :
    Along Registry.Adds (importRecord importType enclosing members) := by
  refine along_bind Building.along_ofShape fun names => ?_
  refine along_bind Building.along_ofShape fun list => ?_
  split
  · exact along_throw
  · next items _ =>
    intro r
    refine stateAfter_bind r.Adds (Building.along_ofConstruction r) fun s r₀ hrun => ?_
    rcases (Building.run_ofConstruction_eq_ok_iff _ r r₀ s).mp hrun with ⟨hconstruct, rfl⟩
    have hs : s.fields = none := (structNew_eq_ok_iff.mp hconstruct).2.2
    refine stateAfter_bind r.Adds
      (Building.stateAfter_update r.Adds _ r .refl fun r₁ i hreg => ?_) fun i r₁ hrun => ?_
    · rcases (r.registerStruct_eq_ok_iff r₁ s i).mp hreg with ⟨hu, rfl, _⟩
      exact .struct r s .refl hs hu
    · -- From here on there is one more type, and all additions are counted from before it.
      rw [Building.run_update_eq_ok_iff] at hrun
      rcases (r.registerStruct_eq_ok_iff r₁ s i).mp hrun with ⟨hu, rfl, rfl⟩
      have hnew : r.Adds (r.appendStruct s) := .struct r s .refl hs hu
      refine stateAfter_bind r.Adds (hnew.trans
        (along_importFields importType himp _ _ (r.appendStruct s))) fun fields r₂ hfields => ?_
      have hb := along_importFields importType himp names.2 items (r.appendStruct s)
      rw [hfields] at hb
      have hb₂ : r.Adds r₂ := hnew.trans hb
      refine stateAfter_bind r.Adds
        (Building.stateAfter_update r.Adds _ r₂ hb₂ fun r₃ u hset => ?_) fun u r₃ hset => ?_
      · exact adds_of_setFields r r₂ r₃ u fields hb₂ hset
      · rw [Building.run_update_eq_ok_iff] at hset
        exact adds_of_setFields r r₂ r₃ u fields hb₂ hset

theorem along_importObject (space : Option String) (members : Members) :
    Along Registry.Adds (importObject importType space members) := by
  unfold importObject
  split
  · -- A word for a type is a record, an enum, something refused or a logical type.
    split
    · exact along_importRecord importType himp space members
    · split
      · exact along_importEnum space members
      · split
        · exact along_throw
        · split
          · exact along_throw
          · split
            · exact along_throw
            · exact along_importLogical space _ members
  · exact himp space _
  · exact himp space _
  · exact along_throw

theorem along_importTypeWith (space : Option String) (schema : Json) :
    Along Registry.Adds (importTypeWith importType space schema) := by
  cases schema with
  | string name => exact along_importName space name
  | object members => exact along_importObject importType himp space members
  | null | bool _ | int _ | float _ | array _ => exact along_throw

end

/-- Whatever an import comes to, all it does is to add types. -/
theorem along_importTypeAt (depth : Nat) (space : Option String) (schema : Json) :
    Along Registry.Adds (importTypeAt depth space schema) := by
  induction depth generalizing space schema with
  | zero => exact along_importTypeWith _ (fun _ _ => along_throw) space schema
  | succ depth ih => exact along_importTypeWith _ ih space schema

end Avro

/-- An import that succeeds has only added types. -/
theorem adds_of_importSchema (r r' : Registry) (schema : Json) (t : Ty)
    (h : r.importSchema schema = .ok t r') : r.Adds r' := by
  unfold Registry.importSchema at h
  have hadds := Avro.along_importTypeAt schema.depth none schema r
  cases hrun : Avro.importType none schema r with
  | ok t₁ r₁ =>
      rw [hrun, EStateM.Result.ok.injEq] at h
      rw [Avro.importType] at hrun
      rw [hrun] at hadds
      rw [← h.2]
      exact hadds
  | error e r₁ =>
      rw [hrun] at h
      exact nomatch h

/-- What was added behind some types is dropped again. -/
theorem Registry.Below.rollback_eq (r r' : Registry) (h : Below r r') :
    r'.rollback r.checkpoint = r := by
  have hstructs := List.prefix_iff_eq_take.mp h.structs
  have henums := List.prefix_iff_eq_take.mp h.enums
  rw [Registry.rollback, Registry.checkpoint, ← hstructs, ← henums]
  cases r
  cases r'
  rw [Registry.mk.injEq]
  exact ⟨h.token, rfl, rfl⟩

/-- An import that fails has come half-way, and is rolled back from there. -/
theorem Registry.exists_halfway (r r' : Registry) (schema : Json) (e : SchemaError)
    (h : r.importSchema schema = .error e r') :
    ∃ r₁, Avro.importType none schema r = .error e r₁ ∧ r' = r₁.rollback r.checkpoint := by
  unfold Registry.importSchema at h
  cases hrun : Avro.importType none schema r with
  | ok t r₁ =>
      rw [hrun] at h
      exact nomatch h
  | error err r₁ =>
      rw [hrun, EStateM.Result.error.injEq] at h
      rw [h.1]
      exact ⟨r₁, rfl, h.2.symm⟩

/-- The half-way registry has come about by additions alone. -/
theorem Registry.adds_halfway (r r₁ : Registry) (schema : Json) (e : SchemaError)
    (hrun : Avro.importType none schema r = .error e r₁) : r.Adds r₁ := by
  have hadds := Avro.along_importTypeAt schema.depth none schema r
  rw [Avro.importType] at hrun
  rw [hrun] at hadds
  exact hadds

/-- An import that fails changes nothing. -/
theorem importSchema_eq_error (r r' : Registry) (schema : Json) (e : SchemaError)
    (h : r.importSchema schema = .error e r') : r' = r := by
  rcases r.exists_halfway r' schema e h with ⟨r₁, hrun, rfl⟩
  exact ((r.adds_halfway r₁ schema e hrun).keeps).rollback_eq

end Schemata
