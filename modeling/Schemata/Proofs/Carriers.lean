import Schemata.Draft
import Schemata.Proofs.Avro.Expressible

/-!
# Who Carries a Name

What a name stands for in the registries that there can be.

Names of types come and go in several ways: two registrations, renamings that
keep the old name, imports that register in the middle of a recursion, and
imports that fail and take back what they registered. After any sequence of
these a name stands for the one type that carries it, if there is one. The
reason is that all of them are steps an index can follow (`Indexed`), and such
an index never says anything else than the types do.

An import is many such steps. So a registry that was made by operations is
also one that was made step by step, and it has an index.

## Main definitions

* `Registry.RegistersIfFree`: What a registration comes to.

## Theorems

* `Registry.Built.exists_index`: Whatever operations make, an index can
  follow.
* `Registry.Built.indexed`: The lookup is such an index.
* `Registry.registersIfFree_struct`, `Registry.registersIfFree_enumeration`: A
  registration is refused for a name that a type carries, and for no other
  reason.
* `Registry.carriers_of_built`: A name stands for the type that carries it.
-/

namespace Schemata

namespace Registry

/-- Some names get the place and the registry, if no type carries one of them. Otherwise the
    registration fails for one that is carried, and the registry is what it was. -/
def RegistersIfFree (r : Registry) (names : Names) (place : Nat) (extended : Registry)
    (result : EStateM.Result SchemaError Registry Nat) : Prop :=
  (r.Unused names → result = .ok place extended) ∧
    (¬ r.Unused names → ∃ name h, names.Carries name ∧ r.Holds h ∧ (r.namesOf h).Carries name ∧
      result = .error (.conflict name .types) r)

theorem registersIfFree_struct (r : Registry) (s : StructType) :
    r.RegistersIfFree s.names r.structs.length (r.appendStruct s)
      (Building.update (·.registerStruct s) r) := by
  constructor
  · intro hu
    have hreg := (r.registerStruct_eq_ok_iff _ s _).mpr ⟨hu, rfl, rfl⟩
    rw [Building.update, hreg]
  · intro hu
    rcases r.checkUnused_eq_error s.names hu with ⟨name, h, hc, hh, hcarried, hcheck⟩
    refine ⟨name, h, hc, hh, hcarried, ?_⟩
    rw [Building.update, registerStruct, hcheck]
    rfl

theorem registersIfFree_enumeration (r : Registry) (e : EnumType) :
    r.RegistersIfFree e.names r.enums.length (r.appendEnum e)
      (Building.update (·.registerEnum e) r) := by
  constructor
  · intro hu
    have hreg := (r.registerEnum_eq_ok_iff _ e _).mpr ⟨hu, rfl, rfl⟩
    rw [Building.update, hreg]
  · intro hu
    rcases r.checkUnused_eq_error e.names hu with ⟨name, h, hc, hh, hcarried, hcheck⟩
    refine ⟨name, h, hc, hh, hcarried, ?_⟩
    rw [Building.update, registerEnum, hcheck]
    rfl

/-- Whatever operations make, an index can follow. -/
theorem Built.exists_index (r : Registry) (h : Built r) : ∃ index, Indexed r index := by
  -- A struct may be registered with or without fields, so both cases come to this one.
  have hstruct : ∀ (r r' : Registry) (s : StructType) (i : Nat), (∃ index, Indexed r index) →
      r.registerStruct s = .ok (r', i) → ∃ index, Indexed r' index := by
    rintro r r' s i ⟨index, hr⟩ hreg
    rcases (r.registerStruct_eq_ok_iff r' s i).mp hreg with ⟨hu, rfl, _⟩
    exact ⟨_, .struct r index s hr ((hr.exact.free_iff index r s.names).mpr hu)⟩
  induction h with
  | new token => exact ⟨_, .new token⟩
  | struct r r' s i _ _ h ih => exact hstruct r r' s i ih h
  | copy q r r' j s i _ _ _ h _ ih => exact hstruct r r' s i ih h
  | enumeration r r' e i _ h ih =>
      rcases ih with ⟨index, hr⟩
      rcases (r.registerEnum_eq_ok_iff r' e i).mp h with ⟨hu, rfl, _⟩
      exact ⟨_, .enumeration r index e hr ((hr.exact.free_iff index r e.names).mpr hu)⟩
  | setFields i fields _ h ih =>
      rcases ih with ⟨index, hr⟩
      exact ⟨index, .setFields _ _ index i fields hr h⟩
  | rename r r' handle name _ h ih =>
      rcases ih with ⟨index, hr⟩
      rcases (rename_eq_ok_iff r r' handle name).mp h with ⟨names, hn, rfl⟩
      by_cases hh : r.Holds handle
      · -- The index knows whether another type has the name.
        rw [takenElsewhere, ← hr.exact.eq_find?] at hn
        exact ⟨_, .rename r index handle name names hr hh hn⟩
      · rw [r.setNames_eq_self handle names hh]
        exact ⟨index, hr⟩
  | document r handle doc _ ih =>
      rcases ih with ⟨index, hr⟩
      exact ⟨index, .document r index handle doc hr⟩
  | renameFieldAt r r' i position name _ h ih =>
      rcases ih with ⟨index, hr⟩
      exact ⟨index, .renameFieldAt r r' index i position name hr h⟩
  | documentFieldAt r i position doc _ ih =>
      rcases ih with ⟨index, hr⟩
      exact ⟨index, .documentFieldAt r index i position doc hr⟩
  | imported r r' schema t _ h ih =>
      rcases ih with ⟨index, hr⟩
      -- An import that goes through is a series of registrations.
      exact (adds_of_importSchema r r' schema t h).indexed index hr
  | refused r r' schema e _ h ih => exact importSchema_eq_error r r' schema e h ▸ ih

/-- Beside whatever operations make, the lookup is an index that they keep. -/
theorem Built.indexed (r : Registry) (h : Built r) : Indexed r r.find? := by
  rcases h.exists_index with ⟨index, hindex⟩
  rw [← hindex.exact.eq_find? index r]
  exact hindex

/-- In every registry that operations make a name stands for the one type that carries it, an
    index of names that is kept beside the types says the same, and a type can be registered
    exactly if none of its names is carried. -/
theorem carriers_of_built (r : Registry) (h : r.Built) :
    (Indexed r r.find? ∧ ∀ index, Indexed r index → index = r.find?) ∧
    (∀ name handle, r.get name = .ok handle ↔
      r.Holds handle ∧ (r.namesOf handle).Carries name) ∧
    (∀ name e, r.get name = .error e ↔
      e = .unknownType name ∧ ∀ handle, r.Holds handle → ¬ (r.namesOf handle).Carries name) ∧
    (∀ handle handle' name, r.Holds handle → r.Holds handle' →
      (r.namesOf handle).Carries name → (r.namesOf handle').Carries name → handle = handle') ∧
    (∀ handle, r.nameOf handle ∉ (r.namesOf handle).aliases) ∧
    (∀ s : StructType, r.RegistersIfFree s.names r.structs.length (r.appendStruct s)
      (Building.update (·.registerStruct s) r)) ∧
    ∀ e : EnumType, r.RegistersIfFree e.names r.enums.length (r.appendEnum e)
      (Building.update (·.registerEnum e) r) := by
  -- The index is built along with the registry, and an index that is exact keeps names distinct.
  have hindexed := h.indexed
  have hdistinct : r.Distinct := hindexed.exact.distinct _ r
  refine ⟨⟨hindexed, ?_⟩, r.get_eq_ok_iff hdistinct, r.get_eq_error_iff, hdistinct, ?_,
    r.registersIfFree_struct, r.registersIfFree_enumeration⟩
  · intro index hindex
    exact hindex.exact.eq_find? index r
  · intro handle
    exact (r.namesOf handle).name_not_mem

end Registry

namespace Sample

/-- The items of a list, renamed: all names that they had are aliases. -/
def articles : Registry :=
  items.setNames (.struct 0)
    ⟨"shop.Article", .ofList ["shop.Entry", "shop.Item", "stock.Item"], by decide⟩

theorem articles_built : articles.Built :=
  .rename items articles (.struct 0) "shop.Article" items_built
    ((Registry.rename_eq_ok_iff _ _ _ _).mpr ⟨_, rfl, rfl⟩)

end Sample

open Sample

theorem carriers_of_articles : articles.get "shop.Article" = .ok (.struct 0) ∧
    articles.get "shop.Item" = .ok (.struct 0) ∧
    articles.get "Item" = .error (.unknownType "Item") := by
  have hnames := Registry.carriers_of_built articles articles_built
  refine ⟨?_, ?_, ?_⟩
  · exact (hnames.2.1 "shop.Article" (.struct 0)).mpr ⟨by decide, by decide⟩
  · exact (hnames.2.1 "shop.Item" (.struct 0)).mpr ⟨by decide, by decide⟩
  · refine (hnames.2.2.1 "Item" _).mpr ⟨rfl, ?_⟩
    rw [← articles.find?_eq_none_iff "Item"]
    decide

end Schemata
