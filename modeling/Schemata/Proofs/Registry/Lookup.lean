import Mathlib.Data.List.Sort
import Schemata.Proofs.Results
import Schemata.Registry.Basic

/-!
# Lookup of Names

What a lookup finds, said by the types themselves.

A registry has no index beside its types. A lookup goes through the structs
and then through the enums and takes the first that carries the name. Which
one that is only matters if several carry it, and in a registry that is
`Distinct` none do: a lookup then finds a type exactly if the type carries the
name.

Everything here speaks of a registry by `Holds` and `namesOf`, so that the two
kinds of named types are treated alike.

## Main definitions

* `Registry.Holds`: A type stands behind a handle.
* `Registry.Distinct`: No name is carried by two types.
* `Registry.Carried`: Some type carries a name.
* `Registry.Covers`: If a type has a name, a type stands behind it.
* `Registry.InRange`: That is so for every type of a field.

## Theorems

* `Registry.find?_sound`: What a lookup finds carries the name.
* `Registry.find?_eq_none_iff`: A lookup finds nothing if no type carries the
  name.
* `Registry.find?_eq_some_iff`: In a distinct registry a lookup finds exactly
  the type that carries the name.
* `Registry.get_eq_ok_iff`, `Registry.get_eq_error_iff`: The same of the
  handle that a name stands for.
* `Registry.checkUnused_eq_ok_iff`: Names may be registered if no type carries
  one of them.
-/

namespace Schemata

theorem Names.carries_name {names : Names} : names.Carries names.name :=
  List.mem_cons_self

theorem Names.carries_iff (names : Names) (name : String) :
    names.Carries name ↔ name = names.name ∨ name ∈ names.aliases :=
  List.mem_cons

namespace Registry

/-- A type stands behind the handle. -/
def Holds (r : Registry) : Handle → Prop
  | .struct index => index < r.structs.length
  | .enumeration index => index < r.enums.length

instance (r : Registry) (h : Handle) : Decidable (r.Holds h) :=
  match h with
  | .struct index => inferInstanceAs (Decidable (index < r.structs.length))
  | .enumeration index => inferInstanceAs (Decidable (index < r.enums.length))

/-- No name is carried by two types. -/
def Distinct (r : Registry) : Prop :=
  ∀ h h' name, r.Holds h → r.Holds h' → (r.namesOf h).Carries name →
    (r.namesOf h').Carries name → h = h'

/-- Some type carries the name. -/
def Carried (r : Registry) (name : String) : Prop :=
  ∃ h, r.Holds h ∧ (r.namesOf h).Carries name

/-- If the type has a name, perhaps under unparsed layers, a type stands behind it. -/
def Covers (r : Registry) : Ty → Prop
  | .named h => r.Holds h
  | .unparsed inner => r.Covers inner
  | .scalar _ | .decimal _ => True

instance decidableCovers (r : Registry) : (t : Ty) → Decidable (r.Covers t)
  | .named h => inferInstanceAs (Decidable (r.Holds h))
  | .unparsed inner => decidableCovers r inner
  | .scalar _ | .decimal _ => inferInstanceAs (Decidable True)

/-- Every type of a field of the registry is covered. -/
def InRange (r : Registry) : Prop :=
  ∀ s ∈ r.structs, ∀ fields ∈ s.fields, ∀ field ∈ fields, r.Covers field.type

instance (r : Registry) : Decidable r.InRange :=
  inferInstanceAs (Decidable (∀ s ∈ r.structs, ∀ fields ∈ s.fields, ∀ field ∈ fields, _))

theorem struct_eq_getElem (r : Registry) (i : Nat) (hi : i < r.structs.length) :
    r.struct i = r.structs[i] := by
  rw [struct, List.getD_eq_getElem?_getD, List.getElem?_eq_getElem hi, Option.getD_some]

theorem enumeration_eq_getElem (r : Registry) (i : Nat) (hi : i < r.enums.length) :
    r.enumeration i = r.enums[i] := by
  rw [enumeration, List.getD_eq_getElem?_getD, List.getElem?_eq_getElem hi, Option.getD_some]

/-- Past the last struct there is only the nameless one, which has no fields. -/
theorem lt_of_struct_fields (r : Registry) (i : Nat) (fields : List Field)
    (h : (r.struct i).fields = some fields) : i < r.structs.length := by
  by_contra hi
  rw [struct, List.getD_eq_getElem?_getD, List.getElem?_eq_none (Nat.le_of_not_lt hi)] at h
  exact nomatch h

theorem InRange.field (r : Registry) (h : r.InRange) (i : Nat) (fields : List Field)
    (hf : (r.struct i).fields = some fields) (field : Field) (hm : field ∈ fields) :
    r.Covers field.type := by
  have hi := r.lt_of_struct_fields i fields hf
  rw [r.struct_eq_getElem i hi] at hf
  exact h _ (List.getElem_mem hi) fields hf field hm

theorem find?_sound (r : Registry) (name : String) (h : Handle) (hf : r.find? name = some h) :
    r.Holds h ∧ (r.namesOf h).Carries name := by
  unfold find? at hf
  -- Structs are looked through first, and enums only if no struct carries the name.
  rcases hs : r.structs.findIdx? (·.names.Carries name) with _ | i
  · rw [hs] at hf
    simp only [Option.map_eq_some_iff] at hf
    rcases hf with ⟨i, he, rfl⟩
    rw [List.findIdx?_eq_some_iff_getElem] at he
    rcases he with ⟨hi, hc, _⟩
    refine ⟨hi, ?_⟩
    rw [namesOf, enumeration_eq_getElem r i hi]
    exact of_decide_eq_true hc
  · rw [hs] at hf
    simp only [Option.some.injEq] at hf
    rw [← hf]
    rw [List.findIdx?_eq_some_iff_getElem] at hs
    rcases hs with ⟨hi, hc, _⟩
    refine ⟨hi, ?_⟩
    rw [namesOf, struct_eq_getElem r i hi]
    exact of_decide_eq_true hc

theorem find?_eq_none_iff (r : Registry) (name : String) :
    r.find? name = none ↔ ∀ h, r.Holds h → ¬ (r.namesOf h).Carries name := by
  constructor
  · intro hf h hh hc
    unfold find? at hf
    rcases hs : r.structs.findIdx? (·.names.Carries name) with _ | i
    · rw [hs] at hf
      simp only [Option.map_eq_none_iff] at hf
      rw [List.findIdx?_eq_none_iff] at hs hf
      cases h with
      | struct i =>
          rw [namesOf, struct_eq_getElem r i hh] at hc
          exact absurd hc (of_decide_eq_false (hs _ (List.getElem_mem hh)))
      | enumeration i =>
          rw [namesOf, enumeration_eq_getElem r i hh] at hc
          exact absurd hc (of_decide_eq_false (hf _ (List.getElem_mem hh)))
    · rw [hs] at hf
      exact nomatch hf
  · -- What is found carries the name.
    intro hn
    rcases hf : r.find? name with _ | h
    · rfl
    · rcases find?_sound r name h hf with ⟨hh, hc⟩
      exact absurd hc (hn h hh)

theorem not_carried_iff (r : Registry) (name : String) :
    ¬ r.Carried name ↔ r.find? name = none := by
  rw [find?_eq_none_iff, Carried, not_exists]
  exact forall_congr' fun h => not_and

theorem carried_iff (r : Registry) (name : String) : r.Carried name ↔ r.find? name ≠ none := by
  rw [ne_eq, ← not_carried_iff]
  exact not_not.symm

instance (r : Registry) (name : String) : Decidable (r.Carried name) :=
  decidable_of_iff _ (r.carried_iff name).symm

/-- In a distinct registry a lookup finds exactly the type that carries the name. -/
theorem find?_eq_some_iff (r : Registry) (hd : r.Distinct) (name : String) (h : Handle) :
    r.find? name = some h ↔ r.Holds h ∧ (r.namesOf h).Carries name := by
  refine ⟨find?_sound r name h, fun ⟨hh, hc⟩ => ?_⟩
  rcases hf : r.find? name with _ | h'
  · exact absurd hc ((find?_eq_none_iff r name).mp hf h hh)
  · rcases find?_sound r name h' hf with ⟨hh', hc'⟩
    rw [hd h h' name hh hh' hc hc']

/-- A name stands for the type that carries it. -/
theorem get_eq_ok_iff (r : Registry) (hd : r.Distinct) (name : String) (h : Handle) :
    r.get name = .ok h ↔ r.Holds h ∧ (r.namesOf h).Carries name := by
  rw [← r.find?_eq_some_iff hd name h, get]
  cases r.find? name with
  | none => simp only [reduceCtorEq]
  | some found => simp only [Except.ok.injEq, Option.some.injEq]

/-- A name is unknown if no type carries it. -/
theorem get_eq_error_iff (r : Registry) (name : String) (e : SchemaError) :
    r.get name = .error e ↔
      e = .unknownType name ∧ ∀ h, r.Holds h → ¬ (r.namesOf h).Carries name := by
  rw [← r.find?_eq_none_iff name, get]
  cases r.find? name with
  | none => simp only [Except.error.injEq, and_true, eq_comm]
  | some found => simp only [reduceCtorEq, and_false]

theorem checkUnused_eq_ok_iff (r : Registry) (names : Names) :
    r.checkUnused names = .ok () ↔ ∀ name, names.Carries name → r.find? name = none := by
  unfold checkUnused
  rcases hf : names.all.find? (fun name => (r.find? name).isSome) with _ | name
  · simp only [true_iff]
    intro name hc
    rw [List.find?_eq_none] at hf
    have hnone := hf name hc
    rwa [Bool.not_eq_true, Option.isSome_eq_false_iff, Option.isNone_iff_eq_none] at hnone
  · simp only [reduceCtorEq, false_iff]
    intro hn
    have hsome := List.find?_some hf
    rw [hn name (List.mem_of_find?_eq_some hf)] at hsome
    exact nomatch hsome

end Registry

end Schemata
