import Mathlib.Data.List.Forall2
import Mathlib.Data.List.ProdSigma
import Schemata.Registry.Equality
import Schemata.Proofs.Registry.Reaches

/-!
# Structural Equality as Bisimilarity

What the comparison of two graphs decides.

Two graphs are the same if there is a relation between their structs that
holds between the roots and keeps to itself: structs that it relates agree in
names and documentation, and their fields agree in all that they say and have
types that are related again. Such a relation is a `Bisimulation`. It may go
round a cycle as often as it likes, which a recursion over the graphs could
not.

The comparison keeps a list of the pairs it has begun. `sameTypeAt_sound` says
that after a run that finds no mismatch this list is such a relation: each
pair in it either stood there before or has had its bodies compared, with
types that agree up to pairs in the list. An assumption that a pair is equal
is thus discharged by the very run that makes it.

The other direction is about the depth that a comparison may use up. Every
body that is compared is that of a new pair, so `remaining`, the number of
pairs that are not in the list yet, bounds how deep bodies nest.

## Main definitions

* `Registry.TypesMatch`, `Registry.StructsMatch`: Agreement up to a relation
  of structs.
* `Registry.Bisimulation`: A relation of structs that keeps to itself.
* `Registry.Bisimilar`: Two types agree up to some bisimulation.
* `Registry.remaining`: How many pairs have not been met.

## Theorems

* `Registry.reaches_of_bisimulation`: What is met in one graph is matched in
  the other.
* `Registry.sameTypeAt_sound`: A comparison without mismatch justifies every
  pair that it has begun.
* `Registry.sameTypeAt_complete`: Types that agree up to a bisimulation are
  found equal, if the depth allows for the pairs that remain.
* `Registry.bisimilar_of_sameType`: Types that are found equal are bisimilar.
* `Registry.sameType_of_bisimulation`: Types that agree up to a bisimulation
  within the registries are found equal.
-/

namespace Schemata

/-! ### Documents and defaults equal themselves -/

namespace Json

theorem sameNumber_refl (number : Finite) : sameNumber number number = true := by
  rw [sameNumber, beq_self_eq_true, Bool.true_or]

mutual

theorem same_refl : ∀ json : Json, same json json = true
  | .null => rfl
  | .bool value => beq_self_eq_true value
  | .int value => beq_self_eq_true value
  | .float value => sameNumber_refl value
  | .string value => beq_self_eq_true value
  | .array items => sameItems_refl items
  | .object members => sameMembers_refl members

theorem sameItems_refl : ∀ items : List Json, sameItems items items = true
  | [] => rfl
  | item :: rest => by rw [sameItems, same_refl item, sameItems_refl rest, Bool.and_self]

theorem sameMembers_refl : ∀ members : List (String × Json), sameMembers members members = true
  | [] => rfl
  | (key, value) :: rest => by
      rw [sameMembers, beq_self_eq_true, same_refl value, sameMembers_refl rest, Bool.and_self,
        Bool.and_self]

end

end Json

theorem Default.same_refl (default : Default) : default.same default = true := by
  cases default with
  | none => rfl
  | null => rfl
  | literal value => exact value.same_refl

namespace Registry

/-- Fields agree if they differ in no more than type and owner. -/
theorem sameFieldHead_of_eq (a b : Field) (hnames : a.names = b.names)
    (hdoc : a.documentation = b.documentation) (hcard : a.cardinality = b.cardinality)
    (hdefault : a.default = b.default) : sameFieldHead a b = true := by
  rw [sameFieldHead, hnames, hdoc, hcard, hdefault, b.default.same_refl]
  simp only [decide_true, Bool.and_self]

/-! ### Agreement up to a relation -/

/-- The types agree, where structs agree if they are related. -/
inductive TypesMatch (left right : Registry) (rel : Nat → Nat → Prop) : Ty → Ty → Prop
  | scalar (kind : ScalarKind) : TypesMatch left right rel (.scalar kind) (.scalar kind)
  | decimal (type : DecimalType) : TypesMatch left right rel (.decimal type) (.decimal type)
  | enumeration (i j : Nat) (h : left.enumeration i = right.enumeration j) :
      TypesMatch left right rel (.named (.enumeration i)) (.named (.enumeration j))
  | struct (i j : Nat) (h : rel i j) :
      TypesMatch left right rel (.named (.struct i)) (.named (.struct j))
  | unparsed (s t : Ty) (h : TypesMatch left right rel s t) :
      TypesMatch left right rel (.unparsed s) (.unparsed t)

/-- The fields agree one by one, and so do their types. -/
def FieldsMatch (left right : Registry) (rel : Nat → Nat → Prop) (as bs : List Field) : Prop :=
  List.Forall₂ (fun a b => sameFieldHead a b = true ∧ TypesMatch left right rel a.type b.type) as bs

/-- The structs agree in names, documentation and fields. -/
def StructsMatch (left right : Registry) (rel : Nat → Nat → Prop) (a b : StructType) : Prop :=
  a.names = b.names ∧ a.documentation = b.documentation ∧
    Option.Rel (FieldsMatch left right rel) a.fields b.fields

/-- The relation keeps to itself: structs that it relates agree up to the relation. -/
def Bisimulation (left right : Registry) (rel : Nat → Nat → Prop) : Prop :=
  ∀ i j, rel i j → StructsMatch left right rel (left.struct i) (right.struct j)

/-- The types agree up to some bisimulation. -/
def Bisimilar (left : Registry) (s : Ty) (right : Registry) (t : Ty) : Prop :=
  ∃ rel, Bisimulation left right rel ∧ TypesMatch left right rel s t

section

variable (left right : Registry) (rel rel' : Nat → Nat → Prop)

theorem typesMatch_mono (h : ∀ i j, rel i j → rel' i j) (s t : Ty)
    (hm : TypesMatch left right rel s t) : TypesMatch left right rel' s t := by
  induction hm with
  | scalar kind => exact .scalar kind
  | decimal type => exact .decimal type
  | enumeration i j he => exact .enumeration i j he
  | struct i j hr => exact .struct i j (h i j hr)
  | unparsed s t _ ih => exact .unparsed s t ih

theorem fieldsMatch_mono (h : ∀ i j, rel i j → rel' i j) (as bs : List Field)
    (hm : FieldsMatch left right rel as bs) : FieldsMatch left right rel' as bs :=
  hm.imp fun _ _ hab => ⟨hab.1, typesMatch_mono left right rel rel' h _ _ hab.2⟩

theorem structsMatch_mono (h : ∀ i j, rel i j → rel' i j) {a b : StructType}
    (hm : StructsMatch left right rel a b) : StructsMatch left right rel' a b := by
  refine ⟨hm.1, hm.2.1, ?_⟩
  have hfields := hm.2.2
  rcases ha : a.fields with _ | as <;> rcases hb : b.fields with _ | bs <;>
    rw [ha, hb] at hfields <;> cases hfields
  · exact .none
  · exact .some (fieldsMatch_mono left right rel rel' h as bs ‹_›)

/-- Types agree if they have equally many unparsed layers and agree under them. -/
theorem typesMatch_iff_core (s t : Ty) :
    TypesMatch left right rel s t ↔
      s.layers = t.layers ∧ TypesMatch left right rel s.core t.core := by
  constructor
  · intro h
    induction h with
    | scalar kind => exact ⟨rfl, .scalar kind⟩
    | decimal type => exact ⟨rfl, .decimal type⟩
    | enumeration i j he => exact ⟨rfl, .enumeration i j he⟩
    | struct i j hr => exact ⟨rfl, .struct i j hr⟩
    | unparsed s t _ ih => exact ⟨congrArg (· + 1) ih.1, ih.2⟩
  · -- One layer is taken off both sides at a time.
    rintro ⟨hlayers, hcore⟩
    induction s generalizing t with
    | unparsed s ih =>
        cases t with
        | unparsed t => exact .unparsed s t (ih t (Nat.succ.inj hlayers) hcore)
        | scalar _ | decimal _ | named _ => exact absurd hlayers (Nat.succ_ne_zero _)
    | scalar _ | decimal _ | named _ =>
        cases t with
        | unparsed t => exact absurd hlayers.symm (Nat.succ_ne_zero _)
        | scalar _ | decimal _ | named _ => exact hcore

end

section

variable (left right : Registry) (rel : Nat → Nat → Prop)

/-- What is met from one type is matched by what is met from the other. -/
theorem reaches_of_bisimulation (hb : Bisimulation left right rel) (s t : Ty)
    (hm : TypesMatch left right rel s t) (u : Ty) (hu : left.Reaches s u) :
    ∃ v, right.Reaches t v ∧ TypesMatch left right rel u v := by
  -- The induction goes along the way on the left, and the way on the right is built beside it.
  induction hu with
  | root => exact ⟨t, .root, hm⟩
  | inner u _ ih =>
      rcases ih with ⟨v, hv, hmatch⟩
      cases hmatch with
      | unparsed _ v hmatch => exact ⟨v, .inner v hv, hmatch⟩
  | field i fields field _ hf hfield ih =>
      rcases ih with ⟨v, hv, hmatch⟩
      cases hmatch with
      | struct _ j hrel =>
          have hfields := (hb i j hrel).2.2
          rw [hf] at hfields
          rcases hj : (right.struct j).fields with _ | fields'
          · rw [hj] at hfields
            cases hfields
          · rw [hj] at hfields
            cases hfields with
            | some hfields =>
                rcases List.forall₂_iff_get.mp hfields with ⟨hlen, hget⟩
                rcases List.mem_iff_getElem.mp hfield with ⟨k, hk, rfl⟩
                exact ⟨_, .field j fields' _ hv hj (List.getElem_mem (hlen ▸ hk)),
                  (hget k hk (hlen ▸ hk)).2⟩

/-- Types that agree have the same names, if they have any. -/
theorem namesOf_eq_of_typesMatch (hb : Bisimulation left right rel) (h h' : Handle)
    (hm : TypesMatch left right rel (.named h) (.named h')) :
    right.namesOf h' = left.namesOf h := by
  cases hm with
  | enumeration i j he => exact congrArg EnumType.names he.symm
  | struct i j hrel => exact (hb i j hrel).1.symm

end

/-! ### A run without mismatch -/

/-- The pair stands in the list. -/
def Pairs.Has (seen : Pairs) (i j : Nat) : Prop :=
  (i, j) ∈ seen

/-- What a comparison without mismatch leaves behind: no pair is lost, and a pair that was
    added has had its bodies compared. -/
def Justified (left right : Registry) (seen seen' : Pairs) : Prop :=
  seen ⊆ seen' ∧ ∀ i j, seen'.Has i j → seen.Has i j ∨
    StructsMatch left right seen'.Has (left.struct i) (right.struct j)

/-- A comparison of types that finds no mismatch justifies what it adds. -/
def Sound (left right : Registry) (compare : Pairs → Ty → Ty → Bool × Pairs) : Prop :=
  ∀ seen s t seen', compare seen s t = (true, seen') →
    Justified left right seen seen' ∧ TypesMatch left right seen'.Has s t

theorem justified_trans (left right : Registry) {a b c : Pairs} (hab : Justified left right a b)
    (hbc : Justified left right b c) : Justified left right a c := by
  refine ⟨List.Subset.trans hab.1 hbc.1, fun i j h => ?_⟩
  rcases hbc.2 i j h with h | h
  · rcases hab.2 i j h with h | h
    · exact Or.inl h
    · exact Or.inr (structsMatch_mono left right _ _ (fun _ _ hp => hbc.1 hp) h)
  · exact Or.inr h

theorem sameFieldsWith_sound (left right : Registry) (compare : Pairs → Ty → Ty → Bool × Pairs)
    (hc : Sound left right compare) (as bs : List Field) :
    ∀ (seen seen' : Pairs), sameFieldsWith compare seen as bs = (true, seen') →
      Justified left right seen seen' ∧ FieldsMatch left right seen'.Has as bs := by
  induction as generalizing bs with
  | nil =>
      intro seen seen' h
      cases bs with
      | nil =>
          simp only [sameFieldsWith, Prod.mk.injEq, true_and] at h
          rw [← h]
          exact ⟨⟨List.Subset.refl _, fun _ _ h => Or.inl h⟩, .nil⟩
      | cons b bs => simp only [sameFieldsWith, Prod.mk.injEq, Bool.false_eq_true, false_and] at h
  | cons a as ih =>
      intro seen seen' h
      cases bs with
      | nil => simp only [sameFieldsWith, Prod.mk.injEq, Bool.false_eq_true, false_and] at h
      | cons b bs =>
          rw [sameFieldsWith] at h
          by_cases hh : sameFieldHead a b = true
          · rw [if_pos hh] at h
            rcases ht : compare seen a.type b.type with ⟨_ | _, seen₁⟩
            · rw [ht] at h
              exact nomatch h
            · rw [ht] at h
              rcases hc seen a.type b.type seen₁ ht with ⟨hj, hm⟩
              rcases ih bs seen₁ seen' h with ⟨hj', hms⟩
              -- What was assumed for the first types is still assumed in the end.
              refine ⟨justified_trans left right hj hj', .cons ⟨hh, ?_⟩ hms⟩
              exact typesMatch_mono left right _ _ (fun _ _ hp => hj'.1 hp) _ _ hm
          · rw [if_neg hh] at h
            exact nomatch h

theorem sameStructWith_sound (left right : Registry) (compare : Pairs → Ty → Ty → Bool × Pairs)
    (hc : Sound left right compare) (seen seen' : Pairs) (i j : Nat)
    (h : sameStructWith left right compare seen i j = (true, seen')) :
    Justified left right seen seen' ∧ seen'.Has i j := by
  unfold sameStructWith at h
  by_cases hs : (i, j) ∈ seen
  · rw [if_pos hs, Prod.mk.injEq] at h
    rw [← h.2]
    exact ⟨⟨List.Subset.refl _, fun _ _ h => Or.inl h⟩, hs⟩
  rw [if_neg hs] at h
  by_cases hh : (left.struct i).names = (right.struct j).names ∧
      (left.struct i).documentation = (right.struct j).documentation
  · simp only [if_pos hh] at h
    -- It is enough to justify what follows the new pair and to match the fields.
    suffices hfields : Justified left right ((i, j) :: seen) seen' ∧ Option.Rel
        (FieldsMatch left right seen'.Has) (left.struct i).fields (right.struct j).fields by
      rcases hfields with ⟨⟨hsub, hjust⟩, hrel⟩
      refine ⟨⟨fun _ hp => hsub (List.mem_cons_of_mem _ hp), fun a b hab => ?_⟩,
        hsub List.mem_cons_self⟩
      rcases hjust a b hab with hp | hp
      · rcases List.mem_cons.mp hp with hp | hp
        · rw [Prod.mk.injEq] at hp
          rw [hp.1, hp.2]
          exact Or.inr ⟨hh.1, hh.2, hrel⟩
        · exact Or.inl hp
      · exact Or.inr hp
    rcases ha : (left.struct i).fields with _ | as <;>
      rcases hb : (right.struct j).fields with _ | bs <;> rw [ha, hb] at h
    · rw [Prod.mk.injEq] at h
      rw [← h.2]
      exact ⟨⟨List.Subset.refl _, fun _ _ h => Or.inl h⟩, .none⟩
    · exact nomatch h
    · exact nomatch h
    · by_cases hlen : as.length = bs.length
      · simp only [if_pos hlen] at h
        rcases sameFieldsWith_sound left right compare hc as bs _ seen' h with ⟨hj, hm⟩
        exact ⟨hj, .some hm⟩
      · simp only [if_neg hlen, Prod.mk.injEq, Bool.false_eq_true, false_and] at h
  · simp only [if_neg hh, Prod.mk.injEq, Bool.false_eq_true, false_and] at h

theorem sameTypeWith_sound (left right : Registry) (compare : Pairs → Ty → Ty → Bool × Pairs)
    (hc : Sound left right compare) : Sound left right (sameTypeWith left right compare) := by
  intro seen s t seen' h
  unfold sameTypeWith at h
  by_cases hl : s.layers = t.layers
  · rw [if_neg (not_not.mpr hl)] at h
    -- Apart from structs nothing is added, and the types agree as they stand.
    have hleaf : ∀ b : Bool, (b, seen) = (true, seen') →
        (b = true → TypesMatch left right seen.Has s.core t.core) →
        Justified left right seen seen' ∧ TypesMatch left right seen'.Has s t := by
      intro b hb hm
      rw [Prod.mk.injEq] at hb
      rw [← hb.2]
      exact ⟨⟨List.Subset.refl _, fun _ _ h => Or.inl h⟩,
        (typesMatch_iff_core left right _ s t).mpr ⟨hl, hm hb.1⟩⟩
    split at h
    · next a b hs ht =>
        exact hleaf _ h fun hab => by rw [hs, ht, of_decide_eq_true hab]; exact .scalar b
    · next a b hs ht =>
        exact hleaf _ h fun hab => by rw [hs, ht, of_decide_eq_true hab]; exact .decimal b
    · next i j hs ht =>
        exact hleaf _ h fun hab => by rw [hs, ht]; exact .enumeration i j (of_decide_eq_true hab)
    · next i j hs ht =>
        rcases sameStructWith_sound left right compare hc seen seen' i j h with ⟨hj, hp⟩
        refine ⟨hj, (typesMatch_iff_core left right _ s t).mpr ⟨hl, ?_⟩⟩
        rw [hs, ht]
        exact .struct i j hp
    · exact nomatch h
  · rw [if_pos hl] at h
    exact nomatch h

theorem sameTypeAt_sound (left right : Registry) (depth : Nat) :
    Sound left right (sameTypeAt left right depth) := by
  induction depth with
  | zero =>
      refine sameTypeWith_sound left right _ fun seen s t seen' h => ?_
      exact nomatch h
  | succ depth ih => exact sameTypeWith_sound left right _ ih

/-- Types that are found equal are bisimilar: the pairs of the run are a bisimulation. -/
theorem bisimilar_of_sameType (left right : Registry) (s t : Ty)
    (h : left.sameType s right t = true) : Bisimilar left s right t := by
  rcases hr : sameTypeAt left right (pairCount left right) [] s t with ⟨b, seen⟩
  rw [sameType, hr] at h
  simp only at h
  rw [h] at hr
  rcases sameTypeAt_sound left right _ [] s t seen hr with ⟨hj, hm⟩
  refine ⟨seen.Has, fun i j hp => ?_, hm⟩
  rcases hj.2 i j hp with hp | hp
  · exact absurd hp List.not_mem_nil
  · exact hp

/-! ### Depth enough -/

/-- The pairs of structs that there are. -/
def allPairs (left right : Registry) : Pairs :=
  List.range left.structs.length ×ˢ List.range right.structs.length

/-- How many pairs have not been met. -/
def remaining (left right : Registry) (seen : Pairs) : Nat :=
  ((allPairs left right).filter (!seen.contains ·)).length

theorem not_contains_iff (seen : Pairs) (p : Nat × Nat) : (!seen.contains p) = true ↔ p ∉ seen := by
  rw [Bool.not_eq_true', ← Bool.not_eq_true, List.contains_iff_mem]

theorem remaining_le_of_subset (left right : Registry) (seen seen' : Pairs) (h : seen ⊆ seen') :
    remaining left right seen' ≤ remaining left right seen := by
  unfold remaining
  rw [← List.countP_eq_length_filter, ← List.countP_eq_length_filter]
  refine List.countP_mono_left fun p _ hp => ?_
  rw [not_contains_iff] at hp ⊢
  exact fun hs => hp (h hs)

/-- A pair that is met for the first time uses up one of those that remain. -/
theorem remaining_cons_lt (left right : Registry) (seen : Pairs) (i j : Nat)
    (hi : i < left.structs.length) (hj : j < right.structs.length) (h : (i, j) ∉ seen) :
    remaining left right ((i, j) :: seen) < remaining left right seen := by
  have hmem : (i, j) ∈ (allPairs left right).filter (!seen.contains ·) := by
    rw [List.mem_filter, not_contains_iff]
    exact ⟨List.mem_product.mpr ⟨List.mem_range.mpr hi, List.mem_range.mpr hj⟩, h⟩
  -- What remains afterwards is what remained before without the new pair.
  have hsplit : (allPairs left right).filter (!((i, j) :: seen).contains ·)
      = ((allPairs left right).filter (!seen.contains ·)).filter fun p => !(p == (i, j)) := by
    rw [List.filter_filter]
    refine List.filter_congr fun p _ => ?_
    rw [List.contains_cons, Bool.not_or]
  unfold remaining
  rw [hsplit]
  exact List.length_filter_lt_length_iff_exists.mpr
    ⟨(i, j), hmem, by simp only [beq_self_eq_true, Bool.not_true, Bool.false_eq_true,
      not_false_eq_true]⟩

theorem remaining_nil (left right : Registry) :
    remaining left right [] = pairCount left right := by
  simp only [remaining, List.contains_nil, Bool.not_false, List.filter_true, allPairs,
    List.length_product, List.length_range, pairCount]

/-- A comparison finds types equal that agree up to a relation, if it has as many steps left
    as there are pairs. -/
def Complete (left right : Registry) (rel : Nat → Nat → Prop) (steps : Nat)
    (compare : Pairs → Ty → Ty → Bool × Pairs) : Prop :=
  ∀ seen s t, remaining left right seen ≤ steps → TypesMatch left right rel s t →
    ∃ seen', compare seen s t = (true, seen') ∧ seen ⊆ seen'

section

variable (left right : Registry) (rel : Nat → Nat → Prop)

theorem sameFieldsWith_complete (steps : Nat) (compare : Pairs → Ty → Ty → Bool × Pairs)
    (hc : Complete left right rel steps compare) (as bs : List Field)
    (hm : FieldsMatch left right rel as bs) :
    ∀ seen, remaining left right seen ≤ steps →
      ∃ seen', sameFieldsWith compare seen as bs = (true, seen') ∧ seen ⊆ seen' := by
  -- What a field has used up is not there for the fields behind it, so what remains only gets less.
  induction hm with
  | nil => exact fun seen _ => ⟨seen, rfl, List.Subset.refl _⟩
  | cons hab _ ih =>
      intro seen hr
      rcases hc seen _ _ hr hab.2 with ⟨seen₁, ht, hsub⟩
      have hr₁ := Nat.le_trans (remaining_le_of_subset left right seen seen₁ hsub) hr
      rcases ih seen₁ hr₁ with ⟨seen', hs, hsub'⟩
      refine ⟨seen', ?_, List.Subset.trans hsub hsub'⟩
      rw [sameFieldsWith, if_pos hab.1, ht]
      exact hs

theorem sameStructWith_complete (hb : Bisimulation left right rel)
    (hr : ∀ i j, rel i j → i < left.structs.length ∧ j < right.structs.length) (steps : Nat)
    (compare : Pairs → Ty → Ty → Bool × Pairs)
    (hc : ∀ fewer, fewer < steps → Complete left right rel fewer compare) (seen : Pairs)
    (hseen : remaining left right seen ≤ steps) (i j : Nat) (h : rel i j) :
    ∃ seen', sameStructWith left right compare seen i j = (true, seen') ∧ seen ⊆ seen' := by
  unfold sameStructWith
  -- A pair that has been met counts as equal. A new one is noted before its fields are compared.
  by_cases hs : (i, j) ∈ seen
  · exact ⟨seen, by rw [if_pos hs], List.Subset.refl _⟩
  rw [if_neg hs]
  rcases hb i j h with ⟨hnames, hdoc, hfields⟩
  rcases hr i j h with ⟨hi, hj⟩
  have hlt := remaining_cons_lt left right seen i j hi hj hs
  have hsub : seen ⊆ (i, j) :: seen := List.subset_cons_self _ _
  simp only [if_pos (And.intro hnames hdoc)]
  rcases ha : (left.struct i).fields with _ | as <;>
    rcases hb : (right.struct j).fields with _ | bs <;> rw [ha, hb] at hfields <;> cases hfields
  · exact ⟨(i, j) :: seen, rfl, hsub⟩
  · next hm =>
      simp only [if_pos hm.length_eq]
      rcases sameFieldsWith_complete left right rel _ compare
        (hc _ (Nat.lt_of_lt_of_le hlt hseen)) as bs hm _ (Nat.le_refl _) with ⟨seen', hs, hsub'⟩
      exact ⟨seen', hs, List.Subset.trans hsub hsub'⟩

theorem sameTypeWith_complete (hb : Bisimulation left right rel)
    (hr : ∀ i j, rel i j → i < left.structs.length ∧ j < right.structs.length) (steps : Nat)
    (compare : Pairs → Ty → Ty → Bool × Pairs)
    (hc : ∀ fewer, fewer < steps → Complete left right rel fewer compare) :
    Complete left right rel steps (sameTypeWith left right compare) := by
  intro seen s t hseen hm
  rcases (typesMatch_iff_core left right rel s t).mp hm with ⟨hl, hcore⟩
  unfold sameTypeWith
  rw [if_neg (not_not.mpr hl)]
  generalize hs : s.core = a at hcore
  generalize ht : t.core = b at hcore
  cases hcore with
  | scalar kind => exact ⟨seen, by simp only [decide_true], List.Subset.refl _⟩
  | decimal type => exact ⟨seen, by simp only [decide_true], List.Subset.refl _⟩
  | enumeration i j he =>
      exact ⟨seen, by simp only [sameEnum, he, decide_true], List.Subset.refl _⟩
  | struct i j h =>
      exact sameStructWith_complete left right rel hb hr steps compare hc seen hseen i j h
  | unparsed u v _ =>
      -- The core of a type is never unparsed.
      exact absurd hs (Ty.core_ne_unparsed s u)

theorem sameTypeAt_complete (hb : Bisimulation left right rel)
    (hr : ∀ i j, rel i j → i < left.structs.length ∧ j < right.structs.length) (depth : Nat) :
    Complete left right rel depth (sameTypeAt left right depth) := by
  induction depth with
  | zero =>
      exact sameTypeWith_complete left right rel hb hr 0 _ fun _ h => absurd h (Nat.not_lt_zero _)
  | succ depth ih =>
      refine sameTypeWith_complete left right rel hb hr (depth + 1) _ fun fewer hf => ?_
      exact fun seen s t hseen => ih seen s t (Nat.le_trans hseen (Nat.le_of_lt_succ hf))

/-- Types that agree up to a bisimulation of structs of the two registries are found equal. -/
theorem sameType_of_bisimulation (hb : Bisimulation left right rel)
    (hr : ∀ i j, rel i j → i < left.structs.length ∧ j < right.structs.length) (s t : Ty)
    (hm : TypesMatch left right rel s t) : left.sameType s right t = true := by
  rcases sameTypeAt_complete left right rel hb hr (pairCount left right) [] s t
    (Nat.le_of_eq (remaining_nil left right)) hm with ⟨seen', h, _⟩
  rw [sameType, h]

end

end Registry

end Schemata
