import Schemata.Proofs.Registry.Bisimulation

/-!
# Structural Equality as Equal Unfoldings

What the comparison of two graphs means to someone who can only walk.

A graph with cycles stands for a tree that may have no end: its unfolding,
which shows at each node what the type there says of itself and has a branch
for each field. A walk is a list of positions. It crosses one field after
another, and it ends at a node or breaks off where there is no field at a
position. Two types have the same unfolding if every walk breaks off in both
or in neither, and if it meets equal fields and an equal node.

`sameType_iff_sameUnfolding` says that the comparison decides exactly this. A
walk has no way to notice that it has come back to a struct, so the statement
says nothing of visited pairs; those are the business of `Bisimulation`, which
the proof goes through. Towards walks a bisimulation is followed step by step.
Back from walks the relation "same unfolding" is itself a bisimulation.

Walks make it plain that the comparison is an equivalence: to meet equal
things on all walks is reflexive, symmetric and transitive as equality of
fields is.

Handles that stand for nothing have no place here. A comparison would have to
look them up, so both registries are `InRange`.

## Main definitions

* `Shape`, `Registry.shape`: What a type says of itself.
* `Field.Agrees`: Two fields say the same, types apart.
* `Registry.follow?`: The fields that a walk crosses, and where it ends.
* `Registry.SameUnfolding`: All walks meet the same.

## Theorems

* `Json.same_comm`, `Json.same_trans`: Equality of documents is symmetric and
  transitive.
* `Registry.sameUnfolding_of_bisimilar`: Bisimilar types have one unfolding.
* `Registry.bisimulation_sameUnfolding`: To have one unfolding is a
  bisimulation.
* `Registry.sameType_iff_sameUnfolding`: The comparison of types decides
  whether they have one unfolding.
* `Registry.sameType_decides_unfolding`: It does, and it is an equivalence
  across registries.
-/

namespace Schemata

/-! ### Equality of documents is an equivalence -/

namespace Json

theorem sameNumber_comm (a b : Finite) : sameNumber a b = sameNumber b a := by
  rw [sameNumber, sameNumber, BEq.comm, Bool.and_comm]

theorem sameNumber_trans (a b c : Finite) (hab : sameNumber a b = true)
    (hbc : sameNumber b c = true) : sameNumber a c = true := by
  simp only [sameNumber, Bool.or_eq_true, beq_iff_eq, Bool.and_eq_true] at hab hbc ⊢
  rcases hab with rfl | ⟨ha, hb⟩
  · exact hbc
  · rcases hbc with rfl | ⟨_, hc⟩
    · exact Or.inr ⟨ha, hb⟩
    · exact Or.inr ⟨ha, hc⟩

mutual

theorem same_comm : ∀ a b : Json, same a b = same b a
  | .null, b => by cases b <;> rfl
  | .bool x, b => by
      cases b with
      | bool y => exact BEq.comm
      | _ => rfl
  | .int x, b => by
      cases b with
      | int y => exact BEq.comm
      | _ => rfl
  | .float x, b => by
      cases b with
      | float y => exact sameNumber_comm x y
      | _ => rfl
  | .string x, b => by
      cases b with
      | string y => exact BEq.comm
      | _ => rfl
  | .array as, b => by
      cases b with
      | array bs => exact sameItems_comm as bs
      | _ => rfl
  | .object as, b => by
      cases b with
      | object bs => exact sameMembers_comm as bs
      | _ => rfl

theorem sameItems_comm : ∀ as bs : List Json, sameItems as bs = sameItems bs as
  | [], bs => by cases bs <;> rfl
  | a :: as, bs => by
      cases bs with
      | nil => rfl
      | cons b bs => rw [sameItems, sameItems, same_comm a b, sameItems_comm as bs]

theorem sameMembers_comm : ∀ as bs : List (String × Json), sameMembers as bs = sameMembers bs as
  | [], bs => by cases bs <;> rfl
  | (j, a) :: as, bs => by
      cases bs with
      | nil => rfl
      | cons b bs =>
          rcases b with ⟨k, b⟩
          rw [sameMembers, sameMembers, same_comm a b, sameMembers_comm as bs, BEq.comm]

end

mutual

theorem same_trans : ∀ a b c : Json, same a b = true → same b c = true → same a c = true
  | .null, b, c, hab, hbc => by
      cases b with
      | null => exact hbc
      | _ => exact absurd hab Bool.false_ne_true
  | .bool x, b, c, hab, hbc => by
      cases b with
      | bool y => rwa [eq_of_beq (show (x == y) = true from hab)]
      | _ => exact absurd hab Bool.false_ne_true
  | .int x, b, c, hab, hbc => by
      cases b with
      | int y => rwa [eq_of_beq (show (x == y) = true from hab)]
      | _ => exact absurd hab Bool.false_ne_true
  -- Floats are compared by what they say, so here equality is not that of the texts.
  | .float x, b, c, hab, hbc => by
      cases b with
      | float y =>
          cases c with
          | float z => exact sameNumber_trans x y z hab hbc
          | _ => exact absurd hbc Bool.false_ne_true
      | _ => exact absurd hab Bool.false_ne_true
  | .string x, b, c, hab, hbc => by
      cases b with
      | string y => rwa [eq_of_beq (show (x == y) = true from hab)]
      | _ => exact absurd hab Bool.false_ne_true
  | .array as, b, c, hab, hbc => by
      cases b with
      | array bs =>
          cases c with
          | array cs => exact sameItems_trans as bs cs hab hbc
          | _ => exact absurd hbc Bool.false_ne_true
      | _ => exact absurd hab Bool.false_ne_true
  | .object as, b, c, hab, hbc => by
      cases b with
      | object bs =>
          cases c with
          | object cs => exact sameMembers_trans as bs cs hab hbc
          | _ => exact absurd hbc Bool.false_ne_true
      | _ => exact absurd hab Bool.false_ne_true

theorem sameItems_trans : ∀ as bs cs : List Json, sameItems as bs = true →
    sameItems bs cs = true → sameItems as cs = true
  | [], bs, cs => by cases bs <;> cases cs <;> simp [sameItems]
  | a :: as, bs, cs => by
      cases bs with
      | nil => simp [sameItems]
      | cons b bs =>
          cases cs with
          | nil => simp [sameItems]
          | cons c cs =>
              simp only [sameItems, Bool.and_eq_true]
              intro hab hbc
              exact ⟨same_trans a b c hab.1 hbc.1, sameItems_trans as bs cs hab.2 hbc.2⟩

theorem sameMembers_trans : ∀ as bs cs : List (String × Json), sameMembers as bs = true →
    sameMembers bs cs = true → sameMembers as cs = true
  | [], bs, cs => by cases bs <;> cases cs <;> simp [sameMembers]
  | (j, a) :: as, bs, cs => by
      cases bs with
      | nil => simp [sameMembers]
      | cons b bs =>
          cases cs with
          | nil => simp [sameMembers]
          | cons c cs =>
              rcases b with ⟨k, b⟩
              rcases c with ⟨l, c⟩
              simp only [sameMembers, Bool.and_eq_true, beq_iff_eq]
              intro hab hbc
              exact ⟨⟨hab.1.1.trans hbc.1.1, same_trans a b c hab.1.2 hbc.1.2⟩,
                sameMembers_trans as bs cs hab.2 hbc.2⟩

end

end Json

namespace Default

theorem same_comm (a b : Default) : a.same b = b.same a := by
  cases a with
  | literal x =>
      cases b with
      | literal y => exact Json.same_comm x y
      | _ => rfl
  | _ => cases b <;> rfl

theorem same_trans {a b c : Default} (hab : a.same b = true) (hbc : b.same c = true) :
    a.same c = true := by
  cases b with
  | none => cases a <;> first | exact hbc | exact absurd hab Bool.false_ne_true
  | null => cases a <;> first | exact hbc | exact absurd hab Bool.false_ne_true
  | literal y =>
      cases a with
      | literal x =>
          cases c with
          | literal z => exact Json.same_trans x y z hab hbc
          | _ => exact absurd hbc Bool.false_ne_true
      | _ => exact absurd hab Bool.false_ne_true

end Default

/-! ### Walks -/

/-- What a type says of itself. -/
inductive Shape where
  | scalar (kind : ScalarKind)
  | decimal (type : DecimalType)
  | enumeration (enumeration : EnumType)
  /-- A struct whose fields are not assigned has no number of fields. -/
  | struct (names : Names) (documentation : Option String) (fieldCount : Option Nat)
  | unparsed (inner : Shape)

/-- Two fields say the same, types apart. -/
structure Field.Agrees (a b : Field) : Prop where
  names : a.names = b.names
  documentation : a.documentation = b.documentation
  cardinality : a.cardinality = b.cardinality
  default : a.default.same b.default = true

namespace Field.Agrees

theorem refl (a : Field) : Agrees a a :=
  ⟨rfl, rfl, rfl, a.default.same_refl⟩

theorem symm (a b : Field) (h : Agrees a b) : Agrees b a :=
  ⟨h.names.symm, h.documentation.symm, h.cardinality.symm, by
    rw [Default.same_comm]; exact h.default⟩

theorem trans {a b c : Field} (h : Agrees a b) (h' : Agrees b c) : Agrees a c :=
  ⟨h.names.trans h'.names, h.documentation.trans h'.documentation,
    h.cardinality.trans h'.cardinality, Default.same_trans h.default h'.default⟩

theorem iff_sameFieldHead (a b : Field) : Agrees a b ↔ Registry.sameFieldHead a b = true := by
  simp only [Registry.sameFieldHead, Bool.and_eq_true, decide_eq_true_eq]
  constructor
  · exact fun h => ⟨⟨⟨h.names, h.documentation⟩, h.cardinality⟩, h.default⟩
  · rintro ⟨⟨⟨hn, hd⟩, hc⟩, hv⟩
    exact ⟨hn, hd, hc, hv⟩

end Field.Agrees

namespace Registry

/-- What a type says of itself. -/
def shape (r : Registry) : Ty → Shape
  | .scalar kind => .scalar kind
  | .decimal type => .decimal type
  | .named (.enumeration i) => .enumeration (r.enumeration i)
  | .named (.struct i) =>
    .struct (r.struct i).names (r.struct i).documentation ((r.struct i).fields.map List.length)
  | .unparsed inner => .unparsed (r.shape inner)

/-- The field at a position of the struct that a type is under its unparsed layers. -/
def fieldOf? (r : Registry) (t : Ty) (position : Nat) : Option Field :=
  match t.core with
  | .named (.struct i) => (r.struct i).fields.bind (·[position]?)
  | _ => none

/-- The fields that a walk crosses, and the type where it ends. -/
def follow? (r : Registry) : Ty → List Nat → Option (List Field × Ty)
  | t, [] => some ([], t)
  | t, position :: rest => do
    let field ← r.fieldOf? t position
    let (fields, u) ← r.follow? field.type rest
    return (field :: fields, u)

/-- The two walks have crossed equal fields and have come to equal nodes. -/
def SameEnd (left right : Registry) (a b : List Field × Ty) : Prop :=
  List.Forall₂ Field.Agrees a.1 b.1 ∧ left.shape a.2 = right.shape b.2

/-- Every walk breaks off from both types or from neither, and it meets the same. -/
def SameUnfolding (left : Registry) (s : Ty) (right : Registry) (t : Ty) : Prop :=
  ∀ path, Option.Rel (SameEnd left right) (left.follow? s path) (right.follow? t path)

/-! ### Meeting the same is an equivalence -/

section

variable {a b c : Registry} {s t u : Ty}

theorem SameUnfolding.refl : SameUnfolding a s a s := by
  intro path
  cases a.follow? s path with
  | none => exact .none
  | some reached => exact .some ⟨List.forall₂_same.mpr fun field _ => .refl field, rfl⟩

theorem SameUnfolding.symm (h : SameUnfolding a s b t) : SameUnfolding b t a s := by
  intro path
  have hpath := h path
  cases hs : a.follow? s path <;> cases ht : b.follow? t path <;> rw [hs, ht] at hpath <;>
    cases hpath
  · exact .none
  · next hend =>
      exact .some ⟨hend.1.flip.imp fun x y hxy => .symm y x hxy, hend.2.symm⟩

theorem forall₂_agrees_trans {xs ys zs : List Field} (h : List.Forall₂ Field.Agrees xs ys)
    (h' : List.Forall₂ Field.Agrees ys zs) : List.Forall₂ Field.Agrees xs zs := by
  induction h generalizing zs with
  | nil => exact h'
  | cons hxy _ ih =>
      cases h' with
      | cons hyz hrest => exact .cons (.trans hxy hyz) (ih hrest)

theorem SameUnfolding.trans (h : SameUnfolding a s b t) (h' : SameUnfolding b t c u) :
    SameUnfolding a s c u := by
  intro path
  have hst := h path
  have htu := h' path
  -- A path leads somewhere in all three registries or in none.
  cases hb : b.follow? t path with
  | none =>
      rw [hb] at hst htu
      cases ha : a.follow? s path <;> cases hc : c.follow? u path <;> rw [ha] at hst <;>
        rw [hc] at htu <;> cases hst <;> cases htu
      exact .none
  | some reached =>
      rw [hb] at hst htu
      cases ha : a.follow? s path <;> cases hc : c.follow? u path <;> rw [ha] at hst <;>
        rw [hc] at htu <;> cases hst <;> cases htu
      next hleft hright =>
        exact .some ⟨forall₂_agrees_trans hleft.1 hright.1, hleft.2.trans hright.2⟩

end

/-! ### Bisimilar types have one unfolding -/

section

variable (left right : Registry) (rel : Nat → Nat → Prop)

theorem shape_eq_of_typesMatch (hb : Bisimulation left right rel) (s t : Ty)
    (hm : TypesMatch left right rel s t) : left.shape s = right.shape t := by
  induction hm with
  | scalar kind => rfl
  | decimal type => rfl
  | enumeration i j he => exact congrArg Shape.enumeration he
  | struct i j hr =>
      have hstruct := hb i j hr
      -- Fields that match one by one are as many.
      have hcount : (left.struct i).fields.map List.length
          = (right.struct j).fields.map List.length := by
        have hfields := hstruct.2.2
        generalize (left.struct i).fields = as? at hfields
        generalize (right.struct j).fields = bs? at hfields
        cases hfields with
        | none => rfl
        | some hmatch => exact congrArg some hmatch.length_eq
      rw [shape, shape, hstruct.1, hstruct.2.1, hcount]
  | unparsed s t _ ih => exact congrArg Shape.unparsed ih

/-- One step: the fields at a position agree, and so do their types. -/
theorem fieldOf?_rel_of_typesMatch (hb : Bisimulation left right rel) (s t : Ty)
    (hm : TypesMatch left right rel s t) (position : Nat) :
    Option.Rel (fun x y => Field.Agrees x y ∧ TypesMatch left right rel x.type y.type)
      (left.fieldOf? s position) (right.fieldOf? t position) := by
  have hcore := ((typesMatch_iff_core left right rel s t).mp hm).2
  unfold fieldOf?
  generalize s.core = a at hcore
  generalize t.core = b at hcore
  cases hcore with
  | struct i j hr =>
      have hfields := (hb i j hr).2.2
      simp only []
      generalize (left.struct i).fields = as? at hfields
      generalize (right.struct j).fields = bs? at hfields
      cases hfields with
      | none => exact .none
      | @some as bs hmatch =>
          simp only [Option.bind_some]
          -- The lists are of one length, so a position is within both or beyond both.
          rcases List.forall₂_iff_get.mp hmatch with ⟨hlen, hget⟩
          by_cases hk : position < as.length
          · rw [List.getElem?_eq_getElem hk, List.getElem?_eq_getElem (hlen ▸ hk)]
            have hboth := hget position hk (hlen ▸ hk)
            exact .some ⟨(Field.Agrees.iff_sameFieldHead _ _).mpr hboth.1, hboth.2⟩
          · rw [List.getElem?_eq_none (by omega), List.getElem?_eq_none (by omega)]
            exact .none
  | scalar _ | decimal _ | enumeration | unparsed => exact .none

/-- Bisimilar types have one unfolding. -/
theorem sameUnfolding_of_bisimilar (s t : Ty) (h : Bisimilar left s right t) :
    SameUnfolding left s right t := by
  rcases h with ⟨rel, hb, hm⟩
  intro path
  -- The invariant of the walk: the types reached so far agree up to the bisimulation.
  induction path generalizing s t with
  | nil => exact .some ⟨.nil, shape_eq_of_typesMatch left right rel hb s t hm⟩
  | cons position rest ih =>
      have hstep := fieldOf?_rel_of_typesMatch left right rel hb s t hm position
      rw [follow?, follow?]
      cases hx : left.fieldOf? s position <;> cases hy : right.fieldOf? t position <;>
        rw [hx, hy] at hstep <;> cases hstep
      · exact .none
      · next x y hxy =>
          have hrest := ih x.type y.type hxy.2
          simp only [Option.bind_eq_bind, Option.bind_some]
          cases hu : left.follow? x.type rest <;> cases hv : right.follow? y.type rest <;>
            rw [hu, hv] at hrest <;> cases hrest
          · exact .none
          · next hend => exact .some ⟨.cons hxy.1 hend.1, hend.2⟩

end

/-! ### To have one unfolding is a bisimulation -/

section

variable (left right : Registry) (s t : Ty)

theorem SameUnfolding.shape_eq (h : SameUnfolding left s right t) :
    left.shape s = right.shape t := by
  cases h [] with
  | some hend => exact hend.2

/-- The walks from the inner types are the walks from the unparsed ones. -/
theorem SameUnfolding.inner (h : SameUnfolding left (.unparsed s) right (.unparsed t)) :
    SameUnfolding left s right t := by
  intro path
  cases path with
  | nil =>
      have hshape := h.shape_eq
      rw [shape, shape, Shape.unparsed.injEq] at hshape
      exact .some ⟨.nil, hshape⟩
  | cons position rest => exact h (position :: rest)

/-- One step: the fields at a position agree, and their types have one unfolding. -/
theorem SameUnfolding.step (h : SameUnfolding left s right t) (position : Nat) :
    Option.Rel (fun x y => Field.Agrees x y ∧ SameUnfolding left x.type right y.type)
      (left.fieldOf? s position) (right.fieldOf? t position) := by
  have hwalk : ∀ rest, Option.Rel (SameEnd left right) (left.follow? s (position :: rest))
      (right.follow? t (position :: rest)) := fun rest => h (position :: rest)
  simp only [follow?, Option.bind_eq_bind] at hwalk
  cases hx : left.fieldOf? s position with
  | none =>
      cases hy : right.fieldOf? t position with
      | none => exact .none
      | some y =>
          -- One walk would break off here and the other would not.
          have hbreak := hwalk []
          rw [hx, hy] at hbreak
          cases hbreak
  | some x =>
      cases hy : right.fieldOf? t position with
      | none =>
          have hbreak := hwalk []
          rw [hx, hy] at hbreak
          cases hbreak
      | some y =>
          simp only [hx, hy, Option.bind_some] at hwalk
          have hagrees : Field.Agrees x y := by
            cases hwalk [] with
            | some hend =>
                cases hend.1 with
                | cons hxy _ => exact hxy
          refine .some ⟨hagrees, fun rest => ?_⟩
          have hrest := hwalk rest
          cases hu : left.follow? x.type rest <;> cases hv : right.follow? y.type rest <;>
            rw [hu, hv] at hrest <;> cases hrest
          · exact .none
          · next hend =>
              cases hend.1 with
              | cons _ hfields => exact .some ⟨hfields, hend.2⟩

/-- Structs of the registries that have one unfolding. -/
def Unfolded (left right : Registry) (i j : Nat) : Prop :=
  i < left.structs.length ∧ j < right.structs.length ∧
    SameUnfolding left (.named (.struct i)) right (.named (.struct j))

theorem typesMatch_of_sameUnfolding (hs : left.Covers s) (ht : right.Covers t)
    (h : SameUnfolding left s right t) : TypesMatch left right (Unfolded left right) s t := by
  -- The shapes show what kind of type each of the two is.
  have hshape := h.shape_eq
  induction s generalizing t with
  | scalar kind =>
      cases t with
      | scalar kind' =>
          rw [shape, shape, Shape.scalar.injEq] at hshape
          rw [hshape]
          exact .scalar kind'
      | named handle => cases handle <;> exact absurd hshape Shape.noConfusion
      | decimal _ | unparsed _ => exact absurd hshape Shape.noConfusion
  | decimal type =>
      cases t with
      | decimal type' =>
          rw [shape, shape, Shape.decimal.injEq] at hshape
          rw [hshape]
          exact .decimal type'
      | named handle => cases handle <;> exact absurd hshape Shape.noConfusion
      | scalar _ | unparsed _ => exact absurd hshape Shape.noConfusion
  | named handle =>
      cases t with
      | named handle' =>
          cases handle <;> cases handle'
          · next i j => exact .struct i j ⟨hs, ht, h⟩
          · exact absurd hshape Shape.noConfusion
          · exact absurd hshape Shape.noConfusion
          · next i j =>
              rw [shape, shape, Shape.enumeration.injEq] at hshape
              exact .enumeration i j hshape
      | scalar _ | decimal _ | unparsed _ => cases handle <;> exact absurd hshape Shape.noConfusion
  | unparsed s ih =>
      cases t with
      | unparsed t => exact .unparsed s t (ih t hs ht h.inner h.inner.shape_eq)
      | named handle => cases handle <;> exact absurd hshape Shape.noConfusion
      | scalar _ | decimal _ => exact absurd hshape Shape.noConfusion

/-- To have one unfolding is a bisimulation. -/
theorem bisimulation_sameUnfolding (hl : left.InRange) (hr : right.InRange) :
    Bisimulation left right (Unfolded left right) := by
  intro i j ⟨_, _, h⟩
  have hshape := h.shape_eq
  rw [shape, shape, Shape.struct.injEq] at hshape
  rcases hshape with ⟨hnames, hdoc, hcount⟩
  refine ⟨hnames, hdoc, ?_⟩
  have hstep := h.step
  simp only [fieldOf?, Ty.core] at hstep
  cases ha : (left.struct i).fields with
  | none =>
      cases hc : (right.struct j).fields with
      | none => exact .none
      | some bs =>
          rw [ha, hc] at hcount
          exact nomatch hcount
  | some as =>
      cases hc : (right.struct j).fields with
      | none =>
          rw [ha, hc] at hcount
          exact nomatch hcount
      | some bs =>
          rw [ha, hc] at hcount hstep
          simp only [Option.map_some, Option.some.injEq] at hcount
          simp only [Option.bind_some] at hstep
          -- There are equally many fields, and they agree position by position.
          refine .some (List.forall₂_iff_get.mpr ⟨hcount, fun k hka hkb => ?_⟩)
          have hk := hstep k
          rw [List.getElem?_eq_getElem hka, List.getElem?_eq_getElem hkb] at hk
          cases hk with
          | some hxy =>
              exact ⟨(Field.Agrees.iff_sameFieldHead _ _).mp hxy.1,
                typesMatch_of_sameUnfolding left right _ _
                  (hl.field left i as ha _ (List.getElem_mem hka))
                  (hr.field right j bs hc _ (List.getElem_mem hkb)) hxy.2⟩

/-- The comparison of types decides whether they have one unfolding. -/
theorem sameType_iff_sameUnfolding (hl : left.InRange) (hr : right.InRange) (hs : left.Covers s)
    (ht : right.Covers t) : left.sameType s right t = true ↔ SameUnfolding left s right t := by
  constructor
  · intro h
    exact sameUnfolding_of_bisimilar left right s t (bisimilar_of_sameType left right s t h)
  · intro h
    exact sameType_of_bisimulation left right (Unfolded left right)
      (bisimulation_sameUnfolding left right hl hr) (fun i j hij => ⟨hij.1, hij.2.1⟩) s t
      (typesMatch_of_sameUnfolding left right s t hs ht h)

end

/-- The comparison of types decides whether they have one unfolding, and it is an equivalence
    across registries. -/
theorem sameType_decides_unfolding :
    (∀ left right : Registry, left.InRange → right.InRange → ∀ s t, left.Covers s →
      right.Covers t → (left.sameType s right t = true ↔ SameUnfolding left s right t)) ∧
    (∀ a : Registry, a.InRange → ∀ s, a.Covers s → a.sameType s a s = true) ∧
    (∀ a b : Registry, a.InRange → b.InRange → ∀ s t, a.Covers s → b.Covers t →
      a.sameType s b t = true → b.sameType t a s = true) ∧
    (∀ a b c : Registry, a.InRange → b.InRange → c.InRange → ∀ s t u, a.Covers s → b.Covers t →
      c.Covers u → a.sameType s b t = true → b.sameType t c u = true →
      a.sameType s c u = true) := by
  refine ⟨?_, ?_, ?_, ?_⟩
  · intro left right hl hr s t hs ht
    exact sameType_iff_sameUnfolding left right s t hl hr hs ht
  · intro a ha s hs
    rw [sameType_iff_sameUnfolding a a s s ha ha hs hs]
    exact .refl
  · intro a b ha hb s t hs ht h
    rw [sameType_iff_sameUnfolding a b s t ha hb hs ht] at h
    rw [sameType_iff_sameUnfolding b a t s hb ha ht hs]
    exact h.symm
  · intro a b c ha hb hc s t u hs ht hu hst htu
    rw [sameType_iff_sameUnfolding a b s t ha hb hs ht] at hst
    rw [sameType_iff_sameUnfolding b c t u hb hc ht hu] at htu
    rw [sameType_iff_sameUnfolding a c s u ha hc hs hu]
    exact hst.trans htu

end Registry

namespace Sample

/-- A node that leads to the node at a place. -/
def nodeTo (next : Nat) : StructType :=
  ⟨.single "Node", none, some [Field.new "next" .optional (.named (.struct next))]⟩

/-- A node that leads to itself. -/
def selfLoop : Registry :=
  ⟨0, [nodeTo 0], []⟩

/-- Two nodes that lead to one another. -/
def alternation : Registry :=
  ⟨1, [nodeTo 1, nodeTo 0], []⟩

end Sample

open Sample

/-- No walk tells the node that leads to itself from two that alternate. -/
theorem sameUnfolding_selfLoop_alternation : selfLoop.InRange ∧ alternation.InRange ∧
    selfLoop.Covers (.named (.struct 0)) ∧ alternation.Covers (.named (.struct 1)) ∧
    selfLoop.SameUnfolding (.named (.struct 0)) alternation (.named (.struct 1)) := by
  refine ⟨by decide, by decide, by decide, by decide, ?_⟩
  exact (Registry.sameType_decides_unfolding.1 selfLoop alternation (by decide) (by decide) _ _
    (by decide) (by decide)).mp (by decide)

end Schemata
