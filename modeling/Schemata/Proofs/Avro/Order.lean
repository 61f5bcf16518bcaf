import Mathlib.Data.List.Basic
import Schemata.Proofs.Avro.Faithful
import Schemata.Proofs.Registry.Operations

/-!
# The Order of Writing

How the handles of a graph are renumbered when it is written and read.

An export defines each type where it is first met, and an import registers
each type where it is defined. The types of the new registry are therefore
those that were written, in the order in which they were written. `image` is
the place of a handle in that order.

`Echoes` is as much as can be said of the new registry from the names in a
document alone: its types bear the names of what was written, place by place.
That is all that references need. Whether a name is free, and what a name
stands for, can be asked of the graph that was written instead of the registry
that is being read.

## Main definitions

* `Avro.structsOf`, `Avro.enumsOf`: What is written, first things first.
* `Avro.image`: The place of a handle in the order of writing.
* `Avro.Echoes`: A registry with the names of what is written.

## Theorems

* `Avro.image_of_suffix`: What was written first keeps its place.
* `Avro.image_injective`: Each handle that is written has a place of its own.
* `Avro.Echoes.holds_iff`, `Avro.Echoes.namesOf`: Behind the handles stands
  what was written.
* `Avro.Echoes.resolve_eq`: A name is resolved as what it was written for.
-/

namespace Schemata

namespace Handle

/-- The place of a struct. -/
def struct? : Handle → Option Nat
  | .struct index => some index
  | .enumeration _ => none

/-- The place of an enum. -/
def enumeration? : Handle → Option Nat
  | .struct _ => none
  | .enumeration index => some index

end Handle

namespace Avro

/-! ### The order of writing -/

/-- The structs among what is written, the first one in front. -/
def structsOf (written : Written) : List Nat :=
  written.reverse.filterMap Handle.struct?

/-- The enums among what is written, the first one in front. -/
def enumsOf (written : Written) : List Nat :=
  written.reverse.filterMap Handle.enumeration?

section

variable (written written' : Written) (i : Nat)

theorem structsOf_cons_struct : structsOf (.struct i :: written) = structsOf written ++ [i] := by
  simp only [structsOf, List.reverse_cons, List.filterMap_append, List.filterMap_cons,
    List.filterMap_nil, Handle.struct?]

theorem structsOf_cons_enumeration :
    structsOf (.enumeration i :: written) = structsOf written := by
  simp only [structsOf, List.reverse_cons, List.filterMap_append, List.filterMap_cons,
    List.filterMap_nil, Handle.struct?, List.append_nil]

theorem enumsOf_cons_enumeration :
    enumsOf (.enumeration i :: written) = enumsOf written ++ [i] := by
  simp only [enumsOf, List.reverse_cons, List.filterMap_append, List.filterMap_cons,
    List.filterMap_nil, Handle.enumeration?]

theorem enumsOf_cons_struct : enumsOf (.struct i :: written) = enumsOf written := by
  simp only [enumsOf, List.reverse_cons, List.filterMap_append, List.filterMap_cons,
    List.filterMap_nil, Handle.enumeration?, List.append_nil]

theorem mem_structsOf : i ∈ structsOf written ↔ .struct i ∈ written := by
  rw [structsOf, List.mem_filterMap]
  constructor
  · rintro ⟨h, hm, hi⟩
    cases h with
    | struct j =>
        rw [Handle.struct?, Option.some.injEq] at hi
        rw [← hi]
        exact List.mem_reverse.mp hm
    | enumeration j => simp only [Handle.struct?, reduceCtorEq] at hi
  · exact fun h => ⟨_, List.mem_reverse.mpr h, rfl⟩

theorem mem_enumsOf : i ∈ enumsOf written ↔ .enumeration i ∈ written := by
  rw [enumsOf, List.mem_filterMap]
  constructor
  · rintro ⟨h, hm, hi⟩
    cases h with
    | struct j => simp only [Handle.enumeration?, reduceCtorEq] at hi
    | enumeration j =>
        rw [Handle.enumeration?, Option.some.injEq] at hi
        rw [← hi]
        exact List.mem_reverse.mp hm
  · exact fun h => ⟨_, List.mem_reverse.mpr h, rfl⟩

theorem structsOf_nodup (h : written.Nodup) : (structsOf written).Nodup := by
  refine List.Nodup.filterMap (fun a b c ha hb => ?_) (List.nodup_reverse.mpr h)
  cases a <;> cases b <;>
    simp only [Handle.struct?, Option.mem_def, Option.some.injEq, reduceCtorEq] at ha hb
  rw [ha, hb]

theorem enumsOf_nodup (h : written.Nodup) : (enumsOf written).Nodup := by
  refine List.Nodup.filterMap (fun a b c ha hb => ?_) (List.nodup_reverse.mpr h)
  cases a <;> cases b <;>
    simp only [Handle.enumeration?, Option.mem_def, Option.some.injEq, reduceCtorEq] at ha hb
  rw [ha, hb]

theorem structsOf_initial (h : written <:+ written') : structsOf written <+: structsOf written' :=
  (List.reverse_prefix.mpr h).filterMap _

theorem enumsOf_initial (h : written <:+ written') : enumsOf written <+: enumsOf written' :=
  (List.reverse_prefix.mpr h).filterMap _

end

/-! ### Renumbering -/

/-- The place of a handle in the order of writing. -/
def image (final : Written) : Handle → Handle
  | .struct i => .struct ((structsOf final).idxOf i)
  | .enumeration i => .enumeration ((enumsOf final).idxOf i)

section

variable (final written : Written) (h h' : Handle)

/-- What was written first has the same place in all that is written later. -/
theorem image_of_suffix (hs : written <:+ final) (hm : h ∈ written) :
    image final h = image written h := by
  cases h with
  | struct i =>
      rw [image, image,
        (structsOf_initial _ _ hs).idxOf_eq_of_mem ((mem_structsOf written i).mpr hm)]
  | enumeration i =>
      rw [image, image, (enumsOf_initial _ _ hs).idxOf_eq_of_mem ((mem_enumsOf written i).mpr hm)]

theorem image_injective (hm : h ∈ final) (he : image final h = image final h') : h = h' := by
  -- Structs and enums are counted apart, and each at its place among its own.
  cases h with
  | struct i =>
      cases h' with
      | struct j =>
          rw [image, image, Handle.struct.injEq,
            List.idxOf_inj ((mem_structsOf final i).mpr hm)] at he
          rw [he]
      | enumeration j => simp only [image, reduceCtorEq] at he
  | enumeration i =>
      cases h' with
      | struct j => simp only [image, reduceCtorEq] at he
      | enumeration j =>
          rw [image, image, Handle.enumeration.injEq,
            List.idxOf_inj ((mem_enumsOf final i).mpr hm)] at he
          rw [he]

end

/-! ### Registries with the names of what is written -/

/-- The types of the second registry bear the names of what is written of the first, in the
    order of writing. -/
structure Echoes (r q : Registry) (written : Written) : Prop where
  structs : q.structs.map StructType.names = (structsOf written).map fun i => (r.struct i).names
  enums : q.enums = (enumsOf written).map r.enumeration

namespace Echoes

variable {r q : Registry} {written : Written}

theorem length_structs (he : Echoes r q written) :
    q.structs.length = (structsOf written).length := by
  have hlen := congrArg List.length he.structs
  rwa [List.length_map, List.length_map] at hlen

theorem length_enums (he : Echoes r q written) : q.enums.length = (enumsOf written).length := by
  rw [he.enums, List.length_map]

theorem names_struct (he : Echoes r q written) (p : Nat) (hp : p < (structsOf written).length) :
    (q.struct p).names = (r.struct (structsOf written)[p]).names := by
  have hlen : p < q.structs.length := by
    rw [he.length_structs]
    exact hp
  have hget := congrArg (·[p]?) he.structs
  simp only [List.getElem?_map, List.getElem?_eq_getElem hlen, List.getElem?_eq_getElem hp,
    Option.map_some, Option.some.injEq] at hget
  rw [Registry.struct_eq_getElem q p hlen, hget]

theorem enumeration_eq (he : Echoes r q written) (p : Nat) (hp : p < (enumsOf written).length) :
    q.enumeration p = r.enumeration (enumsOf written)[p] := by
  rw [Registry.enumeration, he.enums, List.getD_eq_getElem?_getD,
    List.getElem?_eq_getElem (by rw [List.length_map]; exact hp), Option.getD_some,
    List.getElem_map]

theorem namesOf (he : Echoes r q written) (h : Handle) (hm : h ∈ written) :
    q.namesOf (image written h) = r.namesOf h := by
  cases h with
  | struct i =>
      have hlt := List.idxOf_lt_length_of_mem ((mem_structsOf written i).mpr hm)
      rw [image, Registry.namesOf, he.names_struct _ hlt, List.getElem_idxOf, Registry.namesOf]
  | enumeration i =>
      have hlt := List.idxOf_lt_length_of_mem ((mem_enumsOf written i).mpr hm)
      rw [image, Registry.namesOf, he.enumeration_eq _ hlt, List.getElem_idxOf, Registry.namesOf]

/-- Behind the handles stands what was written. -/
theorem holds_iff (he : Echoes r q written) (hn : written.Nodup) (h : Handle) :
    q.Holds h ↔ ∃ h' ∈ written, h = image written h' := by
  constructor
  · -- A place below the number of types is the place of what was written there.
    cases h with
    | struct p =>
        intro hp
        rw [Registry.Holds, he.length_structs] at hp
        refine ⟨_, (mem_structsOf written _).mp (List.getElem_mem hp), ?_⟩
        rw [image, (structsOf_nodup written hn).idxOf_getElem p hp]
    | enumeration p =>
        intro hp
        rw [Registry.Holds, he.length_enums] at hp
        refine ⟨_, (mem_enumsOf written _).mp (List.getElem_mem hp), ?_⟩
        rw [image, (enumsOf_nodup written hn).idxOf_getElem p hp]
  · rintro ⟨h', hm, rfl⟩
    cases h' with
    | struct i =>
        rw [image, Registry.Holds, he.length_structs]
        exact List.idxOf_lt_length_of_mem ((mem_structsOf written i).mpr hm)
    | enumeration i =>
        rw [image, Registry.Holds, he.length_enums]
        exact List.idxOf_lt_length_of_mem ((mem_enumsOf written i).mpr hm)

theorem distinct (he : Echoes r q written) (hn : written.Nodup) (hd : r.Distinct)
    (hh : ∀ h ∈ written, r.Holds h) : q.Distinct := by
  intro g g' name hg hg' hc hc'
  rcases (he.holds_iff hn g).mp hg with ⟨h, hm, rfl⟩
  rcases (he.holds_iff hn g').mp hg' with ⟨h', hm', rfl⟩
  rw [he.namesOf h hm] at hc
  rw [he.namesOf h' hm'] at hc'
  rw [hd h h' name (hh h hm) (hh h' hm') hc hc']

/-- The names of a type that is not written yet are unused. -/
theorem unused (he : Echoes r q written) (hn : written.Nodup) (hd : r.Distinct)
    (hh : ∀ h ∈ written, r.Holds h) {h : Handle} (hheld : r.Holds h) (hm : h ∉ written) :
    q.Unused (r.namesOf h) := by
  intro name hc g hg hc'
  rcases (he.holds_iff hn g).mp hg with ⟨h', hm', rfl⟩
  rw [he.namesOf h' hm'] at hc'
  rw [hd h h' name hheld (hh h' hm') hc hc'] at hm
  exact hm hm'

/-- A name is resolved as what it was written for if it is not taken for another. -/
theorem resolve_eq (he : Echoes r q written) (hn : written.Nodup) (hd : r.Distinct)
    (hh : ∀ h ∈ written, r.Holds h) {space : Option String} (h : Handle) (hm : h ∈ written)
    (hr : Reference.Resolves r ⟨space, written, h⟩) :
    resolve q (r.nameOf h) space = .ok (image written h) := by
  have hdist := he.distinct hn hd hh
  rw [resolve_eq_ok_iff]
  rcases hf : q.find? (qualify (r.nameOf h) space) with _ | g
  · -- Nothing is found in the namespace, so the name is looked up as it is.
    have hcarries : (q.namesOf (image written h)).Carries (r.nameOf h) := by
      rw [he.namesOf h hm]
      exact Names.carries_name
    refine Or.inr ⟨rfl, ?_⟩
    rw [q.find?_eq_some_iff hdist]
    exact ⟨(he.holds_iff hn _).mpr ⟨h, hm, rfl⟩, hcarries⟩
  · -- What is found in the namespace carries the name.
    -- The reference is not captured, so it is the same.
    rcases q.find?_sound _ g hf with ⟨hg, hc⟩
    rcases (he.holds_iff hn g).mp hg with ⟨h', hm', rfl⟩
    rw [he.namesOf h' hm'] at hc
    rw [hr.2 h' hm' hc]
    exact Or.inl rfl

end Echoes

/-- A struct with the right names is the next one. -/
theorem Echoes.appendStruct (r q : Registry) (written : Written) (he : Echoes r q written) (i : Nat)
    (s : StructType) (hs : s.names = (r.struct i).names) :
    Echoes r (q.appendStruct s) (.struct i :: written) where
  structs := by
    rw [Registry.appendStruct, structsOf_cons_struct, List.map_append, List.map_append, he.structs,
      List.map_cons, List.map_nil, List.map_cons, List.map_nil, hs]
  enums := by
    rw [enumsOf_cons_struct]
    exact he.enums

theorem Echoes.appendEnum (r q : Registry) {written : Written} (he : Echoes r q written) (i : Nat) :
    Echoes r (q.appendEnum (r.enumeration i)) (.enumeration i :: written) where
  structs := by
    rw [structsOf_cons_enumeration]
    exact he.structs
  enums := by
    rw [Registry.appendEnum, enumsOf_cons_enumeration, List.map_append, he.enums, List.map_cons,
      List.map_nil]

/-- Fields do not matter for names. -/
theorem Echoes.setStruct (r q : Registry) (written : Written) (he : Echoes r q written) (p : Nat)
    (s : StructType) (hs : s.names = (q.struct p).names) : Echoes r (q.setStruct p s) written where
  structs := by
    rw [← he.structs]
    refine List.ext_getElem (by rw [List.length_map, List.length_map, q.setStruct_length])
      fun k h₁ h₂ => ?_
    rw [List.length_map] at h₁ h₂
    rw [List.getElem_map, List.getElem_map]
    have hnames := q.namesOf_setStruct p s (.struct k) hs
    rw [Registry.namesOf, Registry.namesOf, Registry.struct_eq_getElem _ k h₁,
      Registry.struct_eq_getElem _ k h₂] at hnames
    exact hnames
  enums := he.enums

end Avro

end Schemata
