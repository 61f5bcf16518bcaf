import Mathlib.Logic.Relator
import Schemata.Proofs.Registry.Unfolding

/-!
# Counterparts

The structs that two graphs with one unfolding have in common.

Equal graphs may lie differently in their registries: a struct has one place
here and another one there, and what a computation over the graphs remembers of
the structs it has met are places. So it takes a relation to compare two such
computations. Structs are `Counterparts` if one walk comes to both. Where the
types that the walks start from have one unfolding, this is a bisimulation
(`Registry.bisimulation_counterparts`), and it is one that knows its way: what
holds of all fields that walks cross holds of the fields of counterparts.

In general a struct may have many counterparts, as an unrolled cycle does. In
registries where no two types share a name it has one. `biUnique_handlesMatch`
is what makes lists of places that are matched one by one have matching
elements, so that two computations agree on what they have met.

## Main definitions

* `Registry.Counterparts`: One walk comes to both structs.
* `Registry.Matched`: Types agree up to a relation, and are there.
* `Registry.HandlesMatch`: Handles stand for types that agree.
* `Registry.Continues`: Two computations go on meeting types that match.

## Theorems

* `Registry.SameUnfolding.follow`: What is behind one walk has one unfolding.
* `Registry.bisimulation_counterparts`: Counterparts agree up to counterparts.
* `Registry.matched_fields`: So do the types of their fields.
* `Registry.biUnique_handlesMatch`: Distinct names leave one match.
-/

namespace Schemata

namespace Registry

section

variable (r : Registry) (s u : Ty)

/-- A walk crosses its first field and goes on from there. -/
theorem follow?_cons_eq_some_iff (position : Nat) (rest : List Nat) (crossed : List Field) :
    r.follow? s (position :: rest) = some (crossed, u) ↔
      ∃ field behind, r.fieldOf? s position = some field ∧
        r.follow? field.type rest = some (behind, u) ∧ crossed = field :: behind := by
  simp only [follow?, Option.bind_eq_bind, Option.bind_eq_some_iff, Prod.exists]
  constructor
  · rintro ⟨field, hfield, behind, _, hrest, hreached⟩
    cases hreached
    exact ⟨field, behind, hfield, hrest, rfl⟩
  · rintro ⟨field, behind, hfield, hrest, rfl⟩
    exact ⟨field, hfield, behind, u, hrest, rfl⟩

/-- A walk goes on across one more field. -/
theorem follow?_concat (path : List Nat) (position : Nat) (crossed : List Field) (field : Field)
    (hpath : r.follow? s path = some (crossed, u)) (hfield : r.fieldOf? u position = some field) :
    r.follow? s (path ++ [position]) = some (crossed ++ [field], field.type) := by
  induction path generalizing s crossed with
  | nil =>
      rw [follow?, Option.some.injEq, Prod.mk.injEq] at hpath
      rw [← hpath.1, List.nil_append, List.nil_append, hpath.2, follow?_cons_eq_some_iff]
      exact ⟨field, [], hfield, rfl, rfl⟩
  | cons first rest ih =>
      rw [follow?_cons_eq_some_iff] at hpath
      rcases hpath with ⟨next, behind, hnext, hrest, rfl⟩
      rw [List.cons_append, follow?_cons_eq_some_iff]
      exact ⟨next, behind ++ [field], hnext, ih next.type behind hrest, rfl⟩

/-- A type under its unparsed layers is a struct's with just these fields. -/
theorem fieldOf?_of_core (i position : Nat) (hs : s.core = .named (.struct i)) :
    r.fieldOf? s position = (r.struct i).fields.bind (·[position]?) := by
  rw [fieldOf?, hs]

theorem covers_core (h : r.Covers s) : r.Covers s.core := by
  induction s with
  | unparsed s ih => exact ih h
  | scalar _ | decimal _ | named _ => exact h

theorem covers_of_follow (hr : r.InRange) (hs : r.Covers s) (path : List Nat)
    (crossed : List Field) (hpath : r.follow? s path = some (crossed, u)) : r.Covers u := by
  induction path generalizing s crossed with
  | nil =>
      rw [follow?, Option.some.injEq, Prod.mk.injEq] at hpath
      exact hpath.2 ▸ hs
  | cons position rest ih =>
      rw [follow?_cons_eq_some_iff] at hpath
      rcases hpath with ⟨field, behind, hfield, hrest, _⟩
      refine ih field.type ?_ behind hrest
      -- The field is one of a struct of the registry.
      unfold fieldOf? at hfield
      split at hfield
      · next i _ =>
          rw [Option.bind_eq_some_iff] at hfield
          rcases hfield with ⟨fields, hfields, hfield⟩
          exact hr.field r i fields hfields field (List.mem_of_getElem? hfield)
      · cases hfield

end

section

variable (left : Registry) (s : Ty) (right : Registry) (t : Ty)

/-- Where walks have one unfolding before them, so they have behind one path. -/
theorem SameUnfolding.follow (h : SameUnfolding left s right t) (path : List Nat)
    (fs gs : List Field) (u v : Ty) (hs : left.follow? s path = some (fs, u))
    (ht : right.follow? t path = some (gs, v)) : SameUnfolding left u right v := by
  -- On the path: fields at one position of types with one unfolding have types with one unfolding.
  induction path generalizing s t fs gs with
  | nil =>
      rw [follow?, Option.some.injEq, Prod.mk.injEq] at hs ht
      rw [← hs.2, ← ht.2]
      exact h
  | cons position rest ih =>
      rw [follow?_cons_eq_some_iff] at hs ht
      rcases hs with ⟨x, fs', hx, hfs, _⟩
      rcases ht with ⟨y, gs', hy, hgs, _⟩
      have hstep := h.step left right s t position
      rw [hx, hy] at hstep
      cases hstep with
      | some hxy => exact ih x.type y.type hxy.2 fs' gs' hfs hgs

/-- One walk comes to both structs. -/
def Counterparts (i j : Nat) : Prop :=
  ∃ path fs gs u v, left.follow? s path = some (fs, u) ∧ right.follow? t path = some (gs, v) ∧
    u.core = .named (.struct i) ∧ v.core = .named (.struct j)

/-- Counterparts have one unfolding, if the types have that the walks start from. -/
theorem unfolded_of_counterparts (hl : left.InRange) (hr : right.InRange) (hs : left.Covers s)
    (ht : right.Covers t) (h : SameUnfolding left s right t) (i j : Nat)
    (hij : Counterparts left s right t i j) : Unfolded left right i j := by
  rcases hij with ⟨path, fs, gs, u, v, hu, hv, hi, hj⟩
  have hm := typesMatch_of_sameUnfolding left right u v
    (left.covers_of_follow s u hl hs path fs hu) (right.covers_of_follow t v hr ht path gs hv)
    (h.follow left s right t path fs gs u v hu hv)
  have hcore := ((typesMatch_iff_core left right _ u v).mp hm).2
  rw [hi, hj] at hcore
  cases hcore with
  | struct _ _ hij => exact hij

/-- The walk to counterparts goes on across each of their fields. -/
theorem counterparts_field (i j : Nat) (as bs : List Field)
    (hij : Counterparts left s right t i j) (ha : (left.struct i).fields = some as)
    (hb : (right.struct j).fields = some bs) (k : Nat) (hka : k < as.length)
    (hkb : k < bs.length) :
    ∃ path fs gs, left.follow? s path = some (fs ++ [as[k]], as[k].type) ∧
      right.follow? t path = some (gs ++ [bs[k]], bs[k].type) := by
  rcases hij with ⟨path, fs, gs, u, v, hu, hv, hi, hj⟩
  refine ⟨path ++ [k], fs, gs, left.follow?_concat s u path k fs _ hu ?_,
    right.follow?_concat t v path k gs _ hv ?_⟩
  · rw [left.fieldOf?_of_core u i k hi, ha, Option.bind_some, List.getElem?_eq_getElem hka]
  · rw [right.fieldOf?_of_core v j k hj, hb, Option.bind_some, List.getElem?_eq_getElem hkb]

/-- Types that agree up to equal unfoldings do so up to counterparts, if one walk comes to
    both. -/
theorem typesMatch_counterparts (path : List Nat) (fs gs : List Field) (u v : Ty)
    (hu : left.follow? s path = some (fs, u)) (hv : right.follow? t path = some (gs, v))
    (hm : TypesMatch left right (Unfolded left right) u v) :
    TypesMatch left right (Counterparts left s right t) u v := by
  rw [typesMatch_iff_core] at hm ⊢
  refine ⟨hm.1, ?_⟩
  have hcore := hm.2
  generalize hi : u.core = a at hcore ⊢
  generalize hj : v.core = b at hcore ⊢
  -- Only structs refer to the relation, and two structs at the end of one walk are counterparts.
  cases hcore with
  | scalar kind => exact .scalar kind
  | decimal type => exact .decimal type
  | enumeration i j he => exact .enumeration i j he
  | struct i j _ => exact .struct i j ⟨path, fs, gs, u, v, hu, hv, hi, hj⟩
  | unparsed u' _ _ => exact absurd hi (Ty.core_ne_unparsed u u')

/-- Counterparts agree up to counterparts. -/
theorem bisimulation_counterparts (hl : left.InRange) (hr : right.InRange) (hs : left.Covers s)
    (ht : right.Covers t) (h : SameUnfolding left s right t) :
    Bisimulation left right (Counterparts left s right t) := by
  intro i j hij
  rcases bisimulation_sameUnfolding left right hl hr i j
    (unfolded_of_counterparts left s right t hl hr hs ht h i j hij) with ⟨hnames, hdoc, hfields⟩
  refine ⟨hnames, hdoc, ?_⟩
  cases ha : (left.struct i).fields <;> cases hb : (right.struct j).fields <;>
    rw [ha, hb] at hfields <;> cases hfields
  · exact .none
  · next as bs hmatch =>
      rcases List.forall₂_iff_get.mp hmatch with ⟨hlen, hget⟩
      refine .some (List.forall₂_iff_get.mpr ⟨hlen, fun k hka hkb => ⟨(hget k hka hkb).1, ?_⟩⟩)
      -- One step more in the walk that comes to both structs.
      rcases counterparts_field left s right t i j as bs hij ha hb k hka hkb with
        ⟨path, fs, gs, hu, hv⟩
      exact typesMatch_counterparts left s right t path _ _ _ _ hu hv (hget k hka hkb).2

end

/-! ### Types that are there -/

section

variable (left right : Registry) (rel : Nat → Nat → Prop)

/-- The types agree up to the relation, and types stand behind their names. -/
structure Matched (s t : Ty) : Prop where
  here : left.Covers s
  there : right.Covers t
  agree : TypesMatch left right rel s t

/-- The handles stand for types that agree up to the relation. -/
def HandlesMatch (h h' : Handle) : Prop :=
  Matched left right rel (.named h) (.named h')

theorem Matched.core (s t : Ty) (hm : Matched left right rel s t) :
    s.layers = t.layers ∧ Matched left right rel s.core t.core := by
  rcases (typesMatch_iff_core left right rel s t).mp hm.agree with ⟨hlayers, hcore⟩
  exact ⟨hlayers, left.covers_core s hm.here, right.covers_core t hm.there, hcore⟩

/-- Types that match are both structs or neither is. -/
theorem Matched.isSome_struct?_eq (s t : Ty) (hm : Matched left right rel s t) :
    s.struct?.isSome = t.struct?.isSome := by
  have hcore := ((typesMatch_iff_core left right rel s t).mp hm.agree).2
  rw [Ty.struct?, Ty.struct?]
  generalize s.core = a at hcore
  generalize t.core = b at hcore
  cases hcore <;> rfl

/-- The fields of related structs agree, and their types match. -/
theorem matched_fields (hl : left.InRange) (hr : right.InRange)
    (hb : Bisimulation left right rel) (i j : Nat) (hij : rel i j) :
    Option.Rel (List.Forall₂ fun a b => Field.Agrees a b ∧ Matched left right rel a.type b.type)
      (left.struct i).fields (right.struct j).fields := by
  have hfields := (hb i j hij).2.2
  cases ha : (left.struct i).fields <;> cases hc : (right.struct j).fields <;>
    rw [ha, hc] at hfields <;> cases hfields
  · exact .none
  · next as bs hmatch =>
      rcases List.forall₂_iff_get.mp hmatch with ⟨hlen, hget⟩
      refine .some (List.forall₂_iff_get.mpr ⟨hlen, fun k hka hkb => ?_⟩)
      exact ⟨(Field.Agrees.iff_sameFieldHead _ _).mpr (hget k hka hkb).1,
        hl.field left i as ha _ (List.getElem_mem hka),
        hr.field right j bs hc _ (List.getElem_mem hkb), (hget k hka hkb).2⟩

/-- Where no two types share a name, a type matches one type only. -/
theorem biUnique_handlesMatch (hb : Bisimulation left right rel) (hl : left.Distinct)
    (hr : right.Distinct) : Relator.BiUnique (HandlesMatch left right rel) := by
  constructor
  · intro a b c ha hb'
    have hnames := (namesOf_eq_of_typesMatch left right rel hb a c ha.agree).symm.trans
      (namesOf_eq_of_typesMatch left right rel hb b c hb'.agree)
    exact hl a b _ ha.here hb'.here (left.namesOf a).carries_name
      (hnames ▸ (left.namesOf a).carries_name)
  · intro a b c hb' hc
    have hnames := (namesOf_eq_of_typesMatch left right rel hb a b hb'.agree).trans
      (namesOf_eq_of_typesMatch left right rel hb a c hc.agree).symm
    exact hr b c _ hb'.there hc.there (right.namesOf b).carries_name
      (hnames ▸ (right.namesOf b).carries_name)

/-- Of lists that match one by one, both have a type or none has. -/
theorem mem_iff_of_handlesMatch (hu : Relator.BiUnique (HandlesMatch left right rel))
    {h h' : Handle} (hm : HandlesMatch left right rel h h') {met met' : List Handle}
    (hmet : List.Forall₂ (HandlesMatch left right rel) met met') : h ∈ met ↔ h' ∈ met' :=
  List.rel_mem hu hm hmet

/-- Two computations have met more than before, and what they have met matches. -/
structure Continues (before before' after after' : List Handle) : Prop where
  suffix : before <:+ after
  suffix' : before' <:+ after'
  matched : List.Forall₂ (HandlesMatch left right rel) after after'

theorem Continues.refl {met met' : List Handle}
    (h : List.Forall₂ (HandlesMatch left right rel) met met') :
    Continues left right rel met met' met met' :=
  ⟨List.suffix_refl met, List.suffix_refl met', h⟩

theorem Continues.trans {first first' second second' third third' : List Handle}
    (h : Continues left right rel first first' second second')
    (h' : Continues left right rel second second' third third') :
    Continues left right rel first first' third third' :=
  ⟨h.suffix.trans h'.suffix, h.suffix'.trans h'.suffix', h'.matched⟩

/-- A computation that begins with one more type has met more than before that. -/
theorem Continues.of_cons (h h' : Handle) (before before' after after' : List Handle)
    (hc : Continues left right rel (h :: before) (h' :: before') after after') :
    Continues left right rel before before' after after' :=
  ⟨(List.suffix_cons _ _).trans hc.suffix, (List.suffix_cons _ _).trans hc.suffix', hc.matched⟩

end

end Registry

end Schemata
