import Schemata.Editing
import Schemata.Proofs.Avro.Growth
import Schemata.Proofs.Avro.Rollback
import Schemata.Proofs.Registry.Renaming

/-!
# Registries That Operations Make

The registries that there can be.

A registry starts empty and is changed by operations, each of which succeeds or
fails. `Built` has one case for each of them. An operation that fails leaves
the registry it was tried on, so failures need no cases of their own, but for
an import, which hands on whatever registry it ends with.

A struct is registered new, without fields, or as a copy of a struct of some
registry, with the fields of its model. In both cases no two of its fields
share a name.

## Main definitions

* `Registry.Built`: A registry that operations have made.

## Theorems

* `Registry.tidy_imported`: An import leaves names distinct.
* `Registry.edit_eq_ok`: What an edit that succeeds has done.
* `Registry.Built.tidy`: Names are distinct in every registry there can be.
* `Registry.Built.edit`: An edit makes a registry that there can be.
-/

namespace Schemata

namespace Registry

/-- The registry has been made by operations, starting from an empty one. -/
inductive Built : Registry → Prop
  | new (token : Nat) : Built (.new token)
  | struct (r r' : Registry) (s : StructType) (i : Nat) (hr : Built r) (hs : s.fields = none)
      (h : r.registerStruct s = .ok (r', i)) : Built r'
  | copy (q r r' : Registry) (j : Nat) (s : StructType) (i : Nat) (hq : Built q) (hr : Built r)
      (hs : s.fields = (q.struct j).fields) (h : r.registerStruct s = .ok (r', i)) : Built r'
  | enumeration (r r' : Registry) (e : EnumType) (i : Nat) (hr : Built r)
      (h : r.registerEnum e = .ok (r', i)) : Built r'
  | setFields {r r' : Registry} (i : Nat) (fields : List Field) (hr : Built r)
      (h : r.setFields i fields = .ok r') : Built r'
  | rename (r r' : Registry) (handle : Handle) (name : String) (hr : Built r)
      (h : r.rename handle name = .ok r') : Built r'
  | document (r : Registry) (handle : Handle) (doc : Option String) (hr : Built r) :
      Built (r.document handle doc)
  | renameFieldAt (r r' : Registry) (i position : Nat) (name : String) (hr : Built r)
      (h : r.renameFieldAt i position name = .ok r') : Built r'
  | documentFieldAt (r : Registry) (i position : Nat) (doc : Option String) (hr : Built r) :
      Built (r.documentFieldAt i position doc)
  | imported (r r' : Registry) (schema : Json) (t : Ty) (hr : Built r)
      (h : r.importSchema schema = .ok t r') : Built r'
  | refused (r r' : Registry) (schema : Json) (e : SchemaError) (hr : Built r)
      (h : r.importSchema schema = .error e r') : Built r'

theorem tidy_new (token : Nat) : (Registry.new token).Tidy where
  distinct h _ _ hh := absurd hh (Avro.not_holds_new token h)
  fields i fields hf := absurd (lt_of_struct_fields _ i fields hf) (Nat.not_lt_zero i)

section

variable (r r' : Registry)

/-- A struct is registered whose fields share no name. -/
theorem tidy_registerStruct (s : StructType) (i : Nat)
    (hd : ∀ fields, s.fields = some fields → FieldsDistinct fields)
    (h : r.registerStruct s = .ok (r', i)) (ht : r.Tidy) : r'.Tidy := by
  rcases (r.registerStruct_eq_ok_iff r' s i).mp h with ⟨hu, rfl, rfl⟩
  refine ⟨r.distinct_appendStruct s hu ht.distinct, fun j fields hf => ?_⟩
  have hj := lt_of_struct_fields _ j fields hf
  rcases (r.holds_appendStruct_iff s (.struct j)).mp hj with hold | hnew
  · rw [r.struct_appendStruct_lt s j hold] at hf
    exact ht.fields j fields hf
  · rw [Handle.struct.injEq] at hnew
    rw [hnew, r.struct_appendStruct_length s] at hf
    exact hd fields hf

theorem tidy_registerEnum (e : EnumType) (i : Nat) (h : r.registerEnum e = .ok (r', i))
    (ht : r.Tidy) : r'.Tidy := by
  rcases (r.registerEnum_eq_ok_iff r' e i).mp h with ⟨hu, rfl, rfl⟩
  exact ⟨r.distinct_appendEnum e hu ht.distinct, ht.fields⟩

theorem tidy_setFields (i : Nat) (fields : List Field) (h : r.setFields i fields = .ok r')
    (ht : r.Tidy) : r'.Tidy := by
  rcases (r.setFields_eq_ok_iff r' i fields).mp h with ⟨_, _, hd, rfl⟩
  refine tidy_setStruct r i _ rfl (fun fields' hf => ?_) ht
  rw [Option.mem_def, Option.some.injEq] at hf
  rw [← hf, FieldsDistinct, List.flatMap_map]
  exact hd

/-- An edit that succeeds is a renaming or a documentation of what is at the end of its path. -/
theorem edit_eq_ok (root : Nat) (path : FieldPath) (edit : Edit)
    (h : r.edit root path edit = .ok r') :
    (∃ name address, edit = .renameField name ∧ r.locate root path = .ok address ∧
      r.renameFieldAt address.struct address.position name = .ok r') ∨
    (∃ name handle, edit = .renameType name ∧ r.resolveNamed root path = .ok handle ∧
      r.rename handle name = .ok r') ∨
    (∃ text address, edit = .documentField text ∧ r.locate root path = .ok address ∧
      r' = r.documentFieldAt address.struct address.position (some text)) ∨
    ∃ text handle, edit = .documentType text ∧ r.resolveNamed root path = .ok handle ∧
      r' = r.document handle (some text) := by
  -- A renaming may fail behind its path, a documentation may not.
  cases edit with
  | renameField name =>
      rw [edit, bind_eq_ok_iff] at h
      rcases h with ⟨address, hl, h⟩
      exact Or.inl ⟨name, address, rfl, hl, h⟩
  | renameType name =>
      rw [edit, bind_eq_ok_iff] at h
      rcases h with ⟨handle, hn, h⟩
      exact Or.inr (Or.inl ⟨name, handle, rfl, hn, h⟩)
  | documentField text =>
      rw [edit, bind_eq_ok_iff] at h
      rcases h with ⟨address, hl, h⟩
      rw [pure_eq_ok_iff] at h
      exact Or.inr (Or.inr (Or.inl ⟨text, address, rfl, hl, h.symm⟩))
  | documentType text =>
      rw [edit, bind_eq_ok_iff] at h
      rcases h with ⟨handle, hn, h⟩
      rw [pure_eq_ok_iff] at h
      exact Or.inr (Or.inr (Or.inr ⟨text, handle, rfl, hn, h.symm⟩))

/-- What an import adds has names of its own, and so have its fields. -/
theorem tidy_imported (schema : Json) (t : Ty) (h : r.importSchema schema = .ok t r')
    (ht : r.Tidy) : r'.Tidy := by
  have hg := ((importSchema_eq_ok_iff r r' schema t).mp h).grows
  refine ⟨hg.distinct ht.distinct, fun i fields hf => ?_⟩
  by_cases hi : i < r.structs.length
  · rw [hg.below.struct_eq i hi] at hf
    exact ht.fields i fields hf
  · rcases hg.closed i (Nat.le_of_not_lt hi) (r'.lt_of_struct_fields i fields hf) with
      ⟨fields', hf', hd, _⟩
    rw [hf, Option.some.injEq] at hf'
    rw [hf']
    exact hd

end

namespace Built

/-- Names are distinct in every registry there can be. -/
theorem tidy (r : Registry) (h : Built r) : r.Tidy := by
  -- On the operations, each of which keeps what is tidy.
  induction h with
  | new token => exact tidy_new token
  | struct r r' s i _ hs h ih =>
      refine tidy_registerStruct r r' s i (fun fields hf => ?_) h ih
      rw [hs] at hf
      exact nomatch hf
  | copy q r r' j s i _ _ hs h ihq ihr =>
      exact tidy_registerStruct r r' s i (fun fields hf => ihq.fields j fields (hs ▸ hf)) h ihr
  | enumeration r r' e i _ h ih => exact tidy_registerEnum r r' e i h ih
  | setFields i fields _ h ih => exact tidy_setFields _ _ i fields h ih
  | rename r r' handle name _ h ih => exact tidy_rename r r' handle name h ih
  | document r handle doc _ ih => exact tidy_document r handle doc ih
  | renameFieldAt r r' i position name _ h ih => exact tidy_renameFieldAt r r' i position name h ih
  | documentFieldAt r i position doc _ ih => exact tidy_documentFieldAt r i position doc ih
  | imported r r' schema t _ h ih => exact tidy_imported r r' schema t h ih
  | refused r r' schema e _ h ih => exact importSchema_eq_error r r' schema e h ▸ ih

/-- An edit is one of the operations. -/
theorem edit (r r' : Registry) (root : Nat) (path : FieldPath) (edit : Edit) (hr : Built r)
    (h : r.edit root path edit = .ok r') : Built r' := by
  rcases edit_eq_ok r r' root path edit h with ⟨name, address, _, _, h⟩ | ⟨name, handle, _, _, h⟩ |
    ⟨text, address, _, _, rfl⟩ | ⟨text, handle, _, _, rfl⟩
  · exact .renameFieldAt r r' _ _ name hr h
  · exact .rename r r' handle name hr h
  · exact .documentFieldAt r _ _ _ hr
  · exact .document r handle _ hr

end Built

end Registry

end Schemata
