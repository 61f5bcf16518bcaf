import Mathlib.Data.List.Basic
import Schemata.Proofs.Registry.Bisimulation
import Schemata.Proofs.Registry.Operations

/-!
# Registries Side by Side

The types of one registry behind those of another.

Handles are places. When the types of a registry are put behind those of
another registry, every handle that leads to one of them goes up by the number
of types in front, and so does every handle that is stored in a field. Nothing
else changes but the stamps of fields. `beside` is the registry that comes out,
and it can be taken apart again: it holds what is in front, and it holds what
is behind under the raised handles.

Adding a type and putting the types behind others can be done in either order.
So what grows in a registry of its own grows in the same way behind others, as
long as names do not get in the way. They do not if no name is carried on both
sides, and this is the only place where the two sides meet.

A graph that has been put behind other types is still the same graph. To
compare two registries that both have it somewhere, it is enough that each
`Holds` a copy; what stands in front or behind may differ.

## Main definitions

* `Handle.behind`, `Ty.behind`, `Field.behind`, `StructType.behind`: Raising
  handles by the number of types in front.
* `Registry.beside`: The types of one registry behind those of another.
* `Registry.HasCopy`: The types of a graph stand somewhere in a registry.

## Theorems

* `Registry.beside_appendStruct`, `Registry.beside_appendEnum`,
  `Registry.setFields_beside`: What is done to one registry is done behind
  another.
* `Registry.find?_beside`: A name stands for the same type.
* `Registry.sameType_of_copies`: Copies of a graph are equal.
-/

namespace Schemata

/-! ### Raising handles -/

/-- The handle of a type when the types of a registry are put in front of it. -/
def Handle.behind (front : Registry) : Handle → Handle
  | .struct i => .struct (front.structs.length + i)
  | .enumeration i => .enumeration (front.enums.length + i)

/-- The type when the types of a registry are put in front. -/
def Ty.behind (front : Registry) : Ty → Ty
  | .scalar kind => .scalar kind
  | .decimal type => .decimal type
  | .named h => .named (h.behind front)
  | .unparsed inner => .unparsed (inner.behind front)

/-- The field when the types of a registry are put in front. -/
def Field.behind (front : Registry) (field : Field) : Field :=
  { field with type := field.type.behind front }

/-- The struct at a place when the types of a registry are put in front. -/
def StructType.behind (front : Registry) (i : Nat) (s : StructType) : StructType :=
  { s with
    fields := s.fields.map fun fields => fields.map fun field =>
      (field.behind front).stamp (front.owner (front.structs.length + i)) }

theorem Ty.behind_new (token : Nat) (t : Ty) : t.behind (.new token) = t := by
  induction t with
  | scalar kind => rfl
  | decimal type => rfl
  | named h => cases h <;> simp only [Ty.behind, Handle.behind, Registry.new, List.length_nil,
      Nat.zero_add]
  | unparsed inner ih => rw [Ty.behind, ih]

namespace Registry

/-- The types of the second registry behind those of the first. -/
def beside (front r : Registry) : Registry where
  token := front.token
  structs := front.structs ++ r.structs.mapIdx (StructType.behind front)
  enums := front.enums ++ r.enums

section

variable (front r : Registry)

theorem below_beside : Below front (front.beside r) :=
  ⟨rfl, List.prefix_append _ _, List.prefix_append _ _⟩

theorem length_structs_beside :
    (front.beside r).structs.length = front.structs.length + r.structs.length := by
  rw [beside, List.length_append, List.length_mapIdx]

theorem length_enums_beside :
    (front.beside r).enums.length = front.enums.length + r.enums.length := by
  rw [beside, List.length_append]

theorem beside_new (token : Nat) : front.beside (.new token) = front := by
  rw [beside, new, List.mapIdx_nil, List.append_nil, List.append_nil]

theorem struct_beside (i : Nat) (hi : i < r.structs.length) :
    (front.beside r).struct (front.structs.length + i) = (r.struct i).behind front i := by
  have hlt : front.structs.length + i < (front.beside r).structs.length := by
    rw [length_structs_beside]
    omega
  rw [struct_eq_getElem _ _ hlt, r.struct_eq_getElem i hi]
  simp only [beside, List.getElem_append_right (Nat.le_add_right _ _), Nat.add_sub_cancel_left,
    List.getElem_mapIdx]

theorem enumeration_beside (i : Nat) :
    (front.beside r).enumeration (front.enums.length + i) = r.enumeration i := by
  simp only [enumeration, beside, List.getD_eq_getElem?_getD]
  rw [List.getElem?_append_right (Nat.le_add_right _ _), Nat.add_sub_cancel_left]

theorem namesOf_beside (h : Handle) (hh : r.Holds h) :
    (front.beside r).namesOf (h.behind front) = r.namesOf h := by
  cases h with
  | struct i => rw [Handle.behind, namesOf, front.struct_beside r i hh, namesOf, StructType.behind]
  | enumeration i => rw [Handle.behind, namesOf, front.enumeration_beside r i, namesOf]

/-- A place is one of the first or one of the others. -/
theorem lt_add_iff_exists (i m n : Nat) : i < m + n ↔ i < m ∨ ∃ j, j < n ∧ i = m + j := by
  constructor
  · intro hi
    by_cases hm : i < m
    · exact Or.inl hm
    · exact Or.inr ⟨i - m, by omega, by omega⟩
  · rintro (hi | ⟨j, hj, rfl⟩) <;> omega

/-- A type stands in front or behind. -/
theorem holds_beside_iff (h : Handle) : (front.beside r).Holds h ↔
    front.Holds h ∨ ∃ h', r.Holds h' ∧ h = h'.behind front := by
  -- A position behind the front ones is one of the others, moved by their number.
  cases h with
  | struct i =>
      rw [Holds, length_structs_beside, lt_add_iff_exists]
      refine or_congr Iff.rfl ⟨?_, ?_⟩
      · rintro ⟨j, hj, rfl⟩
        exact ⟨.struct j, hj, rfl⟩
      · rintro ⟨h', hh, he⟩
        cases h' with
        | struct j => exact ⟨j, hh, Handle.struct.inj he⟩
        | enumeration j => exact absurd he Handle.noConfusion
  | enumeration i =>
      rw [Holds, length_enums_beside, lt_add_iff_exists]
      refine or_congr Iff.rfl ⟨?_, ?_⟩
      · rintro ⟨j, hj, rfl⟩
        exact ⟨.enumeration j, hj, rfl⟩
      · rintro ⟨h', hh, he⟩
        cases h' with
        | struct j => exact absurd he Handle.noConfusion
        | enumeration j => exact ⟨j, hh, Handle.enumeration.inj he⟩

/-- Whoever carries a name stands in front or behind. -/
theorem carried_beside_iff (name : String) :
    (front.beside r).Carried name ↔ front.Carried name ∨ r.Carried name := by
  have hbelow := front.below_beside r
  -- Neither copy changes a name, so each handle carries what it carried in its own registry.
  constructor
  · rintro ⟨h, hh, hc⟩
    rcases (front.holds_beside_iff r h).mp hh with hf | ⟨h', hr, rfl⟩
    · rw [hbelow.namesOf_eq h hf] at hc
      exact Or.inl ⟨h, hf, hc⟩
    · rw [front.namesOf_beside r h' hr] at hc
      exact Or.inr ⟨h', hr, hc⟩
  · rintro (⟨h, hf, hc⟩ | ⟨h, hr, hc⟩)
    · refine ⟨h, hbelow.holds h hf, ?_⟩
      rw [hbelow.namesOf_eq h hf]
      exact hc
    · refine ⟨h.behind front, (front.holds_beside_iff r _).mpr (Or.inr ⟨h, hr, rfl⟩), ?_⟩
      rw [front.namesOf_beside r h hr]
      exact hc

/-! ### Names on both sides -/

theorem unused_iff (names : Names) :
    r.Unused names ↔ ∀ name, names.Carries name → ¬ r.Carried name := by
  constructor
  · rintro hu name hc ⟨h, hh, hc'⟩
    exact hu name hc h hh hc'
  · intro hu name hc h hh hc'
    exact hu name hc ⟨h, hh, hc'⟩

theorem unused_beside_iff (names : Names) :
    (front.beside r).Unused names ↔ front.Unused names ∧ r.Unused names := by
  simp only [unused_iff, carried_beside_iff, not_or]
  exact ⟨fun h => ⟨fun name hc => (h name hc).1, fun name hc => (h name hc).2⟩,
    fun h name hc => ⟨h.1 name hc, h.2 name hc⟩⟩

/-- A name that is carried behind stands for the type that it stood for. -/
theorem find?_beside (hd : (front.beside r).Distinct) (name : String) (h : Handle)
    (hf : r.find? name = some h) : (front.beside r).find? name = some (h.behind front) := by
  rcases r.find?_sound name h hf with ⟨hh, hc⟩
  rw [find?_eq_some_iff _ hd, front.namesOf_beside r h hh]
  exact ⟨(front.holds_beside_iff r _).mpr (Or.inr ⟨h, hh, rfl⟩), hc⟩

/-- A name that is carried on neither side stands for nothing. -/
theorem find?_beside_eq_none (name : String) (hfront : ¬ front.Carried name)
    (hf : r.find? name = none) : (front.beside r).find? name = none := by
  rw [← not_carried_iff] at hf ⊢
  rw [carried_beside_iff, not_or]
  exact ⟨hfront, hf⟩

/-! ### What is done behind others -/

theorem beside_appendStruct (s : StructType) (hs : s.fields = none) :
    front.beside (r.appendStruct s) = (front.beside r).appendStruct s := by
  have hbehind : s.behind front r.structs.length = s := by
    cases s
    simp only [StructType.behind] at hs ⊢
    rw [hs, Option.map_none]
  simp only [beside, appendStruct, List.mapIdx_concat, hbehind, List.append_assoc]

theorem beside_appendEnum (e : EnumType) :
    front.beside (r.appendEnum e) = (front.beside r).appendEnum e := by
  simp only [beside, appendEnum, List.append_assoc]

theorem beside_setStruct (i : Nat) (s : StructType) :
    front.beside (r.setStruct i s)
      = (front.beside r).setStruct (front.structs.length + i) (s.behind front i) := by
  simp only [beside, setStruct, List.mapIdx_set]
  rw [List.set_append_right _ _ (Nat.le_add_right _ _), Nat.add_sub_cancel_left]

/-- Fields that belong to no struct yet are assigned behind others. -/
theorem setFields_beside (r' : Registry) (i : Nat) (fields : List Field)
    (hi : i < r.structs.length) (ho : ∀ field ∈ fields, field.owner = none)
    (h : r.setFields i fields = .ok r') :
    (front.beside r).setFields (front.structs.length + i) (fields.map (Field.behind front))
      = .ok (front.beside r') := by
  rcases (r.setFields_eq_ok_iff r' i fields).mp h with ⟨hnone, _, hd, rfl⟩
  rw [setFields_eq_ok_iff, front.struct_beside r i hi]
  -- The same four conditions hold of the moved struct: no fields so far, no owner, names that
  -- differ, and the registry that results.
  refine ⟨?_, ?_, ?_, ?_⟩
  · rw [StructType.behind, hnone, Option.map_none]
  · intro field hm owner howner
    rcases List.mem_map.mp hm with ⟨field', hm', rfl⟩
    rw [Field.behind, ho field' hm'] at howner
    exact nomatch howner
  · rw [FieldsDistinct, List.flatMap_map]
    exact hd
  · rw [front.beside_setStruct r i]
    congr 1
    rw [StructType.behind, StructType.behind, Option.map_some, List.map_map, List.map_map]
    rfl

end

/-! ### Copies of a graph -/

section

variable {α β γ : Type} {R : α → β → Prop} {S : α → γ → Prop} {T : β → γ → Prop}

/-- Two lists that go with one list go with each other. -/
theorem forall₂_of_forall₂_left (list : List α) (bs : List β) (cs : List γ)
    (hT : ∀ a ∈ list, ∀ b c, R a b → S a c → T b c) (h : List.Forall₂ R list bs)
    (h' : List.Forall₂ S list cs) : List.Forall₂ T bs cs := by
  induction h generalizing cs with
  | nil =>
      cases h'
      exact .nil
  | cons hR _ ih =>
      cases h' with
      | cons hS hrest =>
          refine .cons (hT _ List.mem_cons_self _ _ hR hS) (ih _ (fun a hm => ?_) hrest)
          exact hT a (List.mem_cons_of_mem _ hm)

theorem rel_of_rel_left {a : Option α} (hT : ∀ x, a = some x → ∀ b c, R x b → S x c → T b c)
    {b : Option β} {c : Option γ} (h : Option.Rel R a b) (h' : Option.Rel S a c) :
    Option.Rel T b c := by
  cases h with
  | none =>
      cases h'
      exact .none
  | some hR =>
      cases h' with
      | some hS => exact .some (hT _ rfl _ _ hR hS)

end

/-- The second field is the first one with other types in front. -/
structure IsCopy (front : Registry) (a b : Field) : Prop where
  names : b.names = a.names
  documentation : b.documentation = a.documentation
  cardinality : b.cardinality = a.cardinality
  default : b.default = a.default
  type : b.type = a.type.behind front

/-- The registry has the types of a graph, where the types of another registry would stand in
    front of them. -/
structure HasCopy (front g r : Registry) : Prop where
  structs : front.structs.length + g.structs.length ≤ r.structs.length
  enums : front.enums.length + g.enums.length ≤ r.enums.length
  names : ∀ i, i < g.structs.length →
    (r.struct (front.structs.length + i)).names = (g.struct i).names
  documentation : ∀ i, i < g.structs.length →
    (r.struct (front.structs.length + i)).documentation = (g.struct i).documentation
  fields : ∀ i, i < g.structs.length → Option.Rel (List.Forall₂ (IsCopy front))
    (g.struct i).fields (r.struct (front.structs.length + i)).fields
  enumeration : ∀ i, i < g.enums.length →
    r.enumeration (front.enums.length + i) = g.enumeration i

section

variable (front front' g r r' : Registry)

theorem hasCopy_beside : HasCopy front g (front.beside g) where
  structs := Nat.le_of_eq (front.length_structs_beside g).symm
  enums := Nat.le_of_eq (front.length_enums_beside g).symm
  names i hi := by rw [front.struct_beside g i hi, StructType.behind]
  documentation i hi := by rw [front.struct_beside g i hi, StructType.behind]
  fields i hi := by
    rw [front.struct_beside g i hi, StructType.behind]
    cases (g.struct i).fields with
    | none => exact .none
    | some fields =>
        refine .some ?_
        rw [List.forall₂_map_right_iff, List.forall₂_same]
        exact fun field _ => ⟨rfl, rfl, rfl, rfl, rfl⟩
  enumeration i _ := front.enumeration_beside g i

/-- A graph is a copy of itself. -/
theorem hasCopy_self (token : Nat) : HasCopy (.new token) g g := by
  have hzero : ∀ i, (Registry.new token).structs.length + i = i := Nat.zero_add
  have hzero' : ∀ i, (Registry.new token).enums.length + i = i := Nat.zero_add
  refine ⟨Nat.le_of_eq (hzero _), Nat.le_of_eq (hzero' _), fun i _ => by rw [hzero],
    fun i _ => by rw [hzero], fun i _ => ?_, fun i _ => by rw [hzero']⟩
  rw [hzero]
  cases (g.struct i).fields with
  | none => exact .none
  | some fields =>
      refine .some (List.forall₂_same.mpr fun field _ => ⟨rfl, rfl, rfl, rfl, ?_⟩)
      rw [Ty.behind_new]

/-- A copy stays where it is when more types are added. -/
theorem HasCopy.mono (h : HasCopy front g r) (hb : Below r r') : HasCopy front g r' := by
  -- What stood before stays, and all of the copy stood before.
  have hstruct : ∀ i, i < g.structs.length →
      r'.struct (front.structs.length + i) = r.struct (front.structs.length + i) := by
    intro i hi
    have hlt := h.structs
    exact hb.struct_eq _ (by omega)
  refine ⟨Nat.le_trans h.structs hb.structs.length_le, Nat.le_trans h.enums hb.enums.length_le,
    fun i hi => ?_, fun i hi => ?_, fun i hi => ?_, fun i hi => ?_⟩
  · rw [hstruct i hi]
    exact h.names i hi
  · rw [hstruct i hi]
    exact h.documentation i hi
  · rw [hstruct i hi]
    exact h.fields i hi
  · have hlt := h.enums
    rw [hb.enumeration_eq _ (by omega)]
    exact h.enumeration i hi

/-- The two places are those of one struct of the graph. -/
def SamePlace (i j : Nat) : Prop :=
  ∃ k, k < g.structs.length ∧ i = front.structs.length + k ∧ j = front'.structs.length + k

theorem typesMatch_of_copies (h : HasCopy front g r) (h' : HasCopy front' g r') (t : Ty)
    (ht : g.Covers t) :
    TypesMatch r r' (SamePlace front front' g) (t.behind front) (t.behind front') := by
  induction t with
  | scalar kind => exact .scalar kind
  | decimal type => exact .decimal type
  | named handle =>
      cases handle with
      | struct i => exact .struct _ _ ⟨i, ht, rfl, rfl⟩
      | enumeration i =>
          refine .enumeration _ _ ?_
          rw [h.enumeration i ht, h'.enumeration i ht]
  | unparsed inner ih => exact .unparsed _ _ (ih ht)

theorem bisimulation_of_copies (hg : g.InRange) (h : HasCopy front g r)
    (h' : HasCopy front' g r') : Bisimulation r r' (SamePlace front front' g) := by
  rintro i j ⟨k, hk, rfl, rfl⟩
  refine ⟨(h.names k hk).trans (h'.names k hk).symm,
    (h.documentation k hk).trans (h'.documentation k hk).symm, ?_⟩
  have hrange := hg.field g k
  refine rel_of_rel_left ?_ (h.fields k hk) (h'.fields k hk)
  intro fields hf as bs hcopy hcopy'
  refine forall₂_of_forall₂_left fields as bs ?_ hcopy hcopy'
  -- Both fields are copies of one field, whose type is in range.
  intro field hm a b ha hb
  refine ⟨sameFieldHead_of_eq a b (ha.names.trans hb.names.symm)
    (ha.documentation.trans hb.documentation.symm) (ha.cardinality.trans hb.cardinality.symm)
    (ha.default.trans hb.default.symm), ?_⟩
  rw [ha.type, hb.type]
  exact typesMatch_of_copies front front' g r r' h h' field.type (hrange fields hf field hm)

/-- Copies of a graph are equal. -/
theorem sameType_of_copies (hg : g.InRange) (h : HasCopy front g r) (h' : HasCopy front' g r')
    (t : Ty) (ht : g.Covers t) : r.sameType (t.behind front) r' (t.behind front') = true := by
  refine sameType_of_bisimulation r r' (SamePlace front front' g)
    (bisimulation_of_copies front front' g r r' hg h h') ?_ _ _
    (typesMatch_of_copies front front' g r r' h h' t ht)
  rintro i j ⟨k, hk, rfl, rfl⟩
  have hlt := h.structs
  have hlt' := h'.structs
  omega

end

end Registry

end Schemata
