import Schemata.Proofs.Avro.Walk
import Schemata.Proofs.Registry.Counterparts

/-!
# Exports of Equal Graphs

Graphs that agree are written alike, wherever their types lie.

An export remembers the handles of what it has written and asks of every named
type whether its handle is among them. Two exports of graphs that agree up to a
bisimulation are therefore compared as they run: `RunsAlike` says that both go
on, with documents that are the same and with lists of handles that match one
by one, or that both stop with one error. Each part of the export keeps this,
and a sequence keeps it if its parts do (`runsAlike_bind`).

The two runs need not have the same depth, since one registry may hold more
structs than the other. `Mirrors` therefore carries how many structs are left
to be written on either side, and no run comes to its end before that.

## Main definitions

* `Avro.RunsAlike`: Two runs come to the same.
* `Avro.Mirrors`: Two exports run alike on types that match.
* `SameResult`: The same document or the same error.

## Theorems

* `Avro.runsAlike_bind`: Sequences run alike if their parts do.
* `Avro.mirrors_exportTypeAt`: Exports of matching types run alike.
* `sameResult_toSchema`: Types that match are exported alike.
-/

namespace Schemata

/-- Members are the same one by one, so they are the same in parts. -/
theorem Json.sameMembers_append {as bs cs ds : List (String × Json)}
    (hab : sameMembers as bs = true) (hcd : sameMembers cs ds = true) :
    sameMembers (as ++ cs) (bs ++ ds) = true := by
  -- On the members in front, of which both have as many.
  induction as generalizing bs with
  | nil =>
      cases bs with
      | nil => exact hcd
      | cons b bs => exact absurd hab Bool.false_ne_true
  | cons a as ih =>
      cases bs with
      | nil => exact absurd hab Bool.false_ne_true
      | cons b bs =>
          simp only [sameMembers, Bool.and_eq_true] at hab
          simp only [List.cons_append, sameMembers, Bool.and_eq_true]
          exact ⟨hab.1, ih hab.2⟩

/-- Items are the same if they are so one by one. -/
theorem Json.sameItems_of_forall₂ (as bs : List Json)
    (h : List.Forall₂ (fun a b => same a b = true) as bs) : sameItems as bs = true := by
  induction h with
  | nil => rfl
  | cons hab _ ih => rw [sameItems, hab, ih, Bool.and_self]

namespace Avro

/-! ### Documents of matching parts -/

theorem same_arraySchema (e e' : Json) (h : e.same e' = true) :
    (arraySchema e).same (arraySchema e') = true := by
  simp only [arraySchema, Json.same, Json.sameMembers, beq_self_eq_true, h, Bool.and_self]

/-- Defaults that are the same are both written, as the same documents, or both left out. -/
theorem same_fieldType (e e' : Json) (h : e.same e' = true) (cardinality : Cardinality)
    (default default' : Default) (hd : default.same default' = true) :
    (fieldType e cardinality default).1.same (fieldType e' cardinality default').1 = true ∧
      Json.sameMembers (member? "default" (fieldType e cardinality default).2)
        (member? "default" (fieldType e' cardinality default').2) = true := by
  have harray := same_arraySchema e e' h
  cases default <;> cases default' <;> first
    | exact absurd hd Bool.false_ne_true
    | cases cardinality <;>
        simp only [Default.same] at hd <;>
        simp only [fieldType, member?, Option.toList, List.map_cons, List.map_nil, Json.same,
          Json.sameItems, Json.sameMembers, beq_self_eq_true, Bool.and_self, h, hd, harray,
          and_self]

theorem same_fieldSchema (a b : Field) (h : a.Agrees b) (e e' : Json) (he : e.same e' = true) :
    (fieldSchema a e).same (fieldSchema b e') = true := by
  have hparts := same_fieldType e e' he a.cardinality a.default b.default h.default
  unfold fieldSchema Field.name
  rw [← h.names, ← h.documentation, ← h.cardinality]
  generalize fieldType e a.cardinality a.default = x at hparts ⊢
  generalize fieldType e' a.cardinality b.default = y at hparts ⊢
  refine Json.sameMembers_append (Json.sameMembers_append
    (Json.sameMembers_append (Json.sameMembers_refl _) hparts.2) (Json.sameMembers_refl _)) ?_
  simp only [Json.sameMembers, beq_self_eq_true, Json.same, hparts.1, Bool.and_self]

theorem same_structSchema {space : Option String} {a b : StructType} (hn : a.names = b.names)
    (hd : a.documentation = b.documentation) (es es' : List Json)
    (h : List.Forall₂ (fun e e' => e.same e' = true) es es') :
    (structSchema space a es).same (structSchema space b es') = true := by
  unfold structSchema StructType.name
  rw [← hn, ← hd]
  refine Json.sameMembers_append (Json.sameMembers_append
    (Json.sameMembers_append (Json.sameMembers_refl _) ?_) (Json.sameMembers_refl _))
    (Json.sameMembers_refl _)
  simp only [Json.sameMembers, beq_self_eq_true, Json.same, Json.sameItems_of_forall₂ es es' h,
    Bool.and_self]

/-! ### Runs that come to the same -/

/-- The runs come to the same: both succeed, and the values and the states are related, or
    both fail with one error. -/
inductive RunsAlike {α : Type} (values : α → α → Prop) (states : Exporting → Exporting → Prop) :
    EStateM.Result SchemaError Exporting α → EStateM.Result SchemaError Exporting α → Prop
  | ok (a b : α) (s s' : Exporting) (hv : values a b) (hs : states s s') :
      RunsAlike values states (.ok a s) (.ok b s')
  | error (e : SchemaError) (s s' : Exporting) :
      RunsAlike values states (.error e s) (.error e s')

/-- Sequences run alike if their parts do. -/
theorem runsAlike_bind {α β : Type} {values : α → α → Prop} {values' : β → β → Prop}
    {states states' : Exporting → Exporting → Prop} {x y : Export α} {f g : α → Export β}
    {s s' : Exporting} (hx : RunsAlike values states (x s) (y s'))
    (hf : ∀ a b s₁ s₁', values a b → states s₁ s₁' →
      RunsAlike values' states' (f a s₁) (g b s₁')) :
    RunsAlike values' states' ((x >>= f) s) ((y >>= g) s') := by
  generalize ha : x s = left at hx
  generalize hb : y s' = right at hx
  -- Either both go on, from states that are alike again, or both have failed in the same way.
  cases hx with
  | ok a b s₁ s₁' hv hs =>
      rw [run_bind_of_ok ha, run_bind_of_ok hb]
      exact hf a b s₁ s₁' hv hs
  | error e s₁ s₁' =>
      rw [run_bind_of_error ha, run_bind_of_error hb]
      exact .error e s₁ s₁'

theorem runsAlike_mono {α : Type} {values : α → α → Prop}
    {states states' : Exporting → Exporting → Prop} (hs : ∀ s s', states s s' → states' s s')
    {x y : EStateM.Result SchemaError Exporting α}
    (h : RunsAlike values states x y) : RunsAlike values states' x y := by
  cases h with
  | ok a b s s' hv hw => exact .ok a b s s' hv (hs s s' hw)
  | error e s s' => exact .error e s s'

section

variable (left right : Registry) (rel : Nat → Nat → Prop)

/-- The states go on from others alike: with more types written that match, and within the
    namespaces that were there. -/
structure GoesOn (s s' t t' : Exporting) : Prop where
  written : Registry.Continues left right rel s.written s'.written t.written t'.written
  space : t.space = s.space
  space' : t'.space = s'.space

theorem GoesOn.refl (s s' : Exporting)
    (h : List.Forall₂ (Registry.HandlesMatch left right rel) s.written s'.written) :
    GoesOn left right rel s s' s s' :=
  ⟨.refl left right rel h, rfl, rfl⟩

theorem GoesOn.trans {s s' t t' u u' : Exporting} (h : GoesOn left right rel s s' t t')
    (h' : GoesOn left right rel t t' u u') : GoesOn left right rel s s' u u' :=
  ⟨.trans left right rel h.written h'.written, h'.space.trans h.space, h'.space'.trans h.space'⟩

/-- Computations within one namespace run alike if they do so there. What follows them is within
    the namespaces around. -/
theorem runsAlike_within {α : Type} {values : α → α → Prop} {space : Option String}
    {x y : Export α} (s s' : Exporting)
    (h : RunsAlike values (GoesOn left right rel ⟨s.written, space⟩ ⟨s'.written, space⟩)
      (x ⟨s.written, space⟩) (y ⟨s'.written, space⟩)) :
    RunsAlike values (GoesOn left right rel s s') (Export.within space x s)
      (Export.within space y s') := by
  unfold Export.within
  generalize x ⟨s.written, space⟩ = a at h
  generalize y ⟨s'.written, space⟩ = b at h
  cases h with
  | ok a b t t' hv hs => exact .ok a b _ _ hv ⟨hs.written, rfl, rfl⟩
  | error e t t' => exact .error e _ _

/-- The exports run alike on types that match, as long as no more than so many structs are
    left to be written on either side. -/
def Mirrors (n n' : Nat) (exp exp' : Ty → Export Json) : Prop :=
  ∀ a b s s', Registry.Matched left right rel a b → s.space = s'.space →
    List.Forall₂ (Registry.HandlesMatch left right rel) s.written s'.written →
    unwritten left s.written ≤ n → unwritten right s'.written ≤ n' →
    RunsAlike (fun e e' => e.same e' = true) (GoesOn left right rel s s') (exp a s) (exp' b s')

theorem mirrors_mono (m m' n n' : Nat) (exp exp' : Ty → Export Json) (hm : m ≤ n)
    (hm' : m' ≤ n') (h : Mirrors left right rel n n' exp exp') :
    Mirrors left right rel m m' exp exp' :=
  fun a b s s' hab hspace hw hu hu' =>
    h a b s s' hab hspace hw (Nat.le_trans hu hm) (Nat.le_trans hu' hm')

theorem runsAlike_exportFields (n n' : Nat) (exp exp' : Ty → Export Json)
    (hexp : Mirrors left right rel n n' exp exp') (as bs : List Field)
    (h : List.Forall₂ (fun a b => Field.Agrees a b ∧ Registry.Matched left right rel a.type b.type)
      as bs) (s s' : Exporting) (hspace : s.space = s'.space)
    (hw : List.Forall₂ (Registry.HandlesMatch left right rel) s.written s'.written)
    (hu : unwritten left s.written ≤ n) (hu' : unwritten right s'.written ≤ n') :
    RunsAlike (List.Forall₂ fun e e' => e.same e' = true) (GoesOn left right rel s s')
      (exportFields exp as s) (exportFields exp' bs s') := by
  induction h generalizing s s' with
  | nil => exact .ok _ _ _ _ .nil (.refl left right rel s s' hw)
  | @cons a b as bs hab _ ih =>
      rw [exportFields, exportFields]
      refine runsAlike_bind (hexp a.type b.type s s' hab.2 hspace hw hu hu') ?_
      intro e e' s₁ s₁' he hc
      have hspace₁ : s₁.space = s₁'.space := hc.space.trans (hspace.trans hc.space'.symm)
      -- What is left to be written does not grow from one field to the next.
      have hle := Nat.le_trans (unwritten_le_of_suffix left hc.written.suffix) hu
      have hle' := Nat.le_trans (unwritten_le_of_suffix right hc.written.suffix') hu'
      refine runsAlike_bind (ih s₁ s₁' hspace₁ hc.written.matched hle hle') ?_
      intro es es' s₂ s₂' hes hc'
      exact .ok _ _ _ _ (.cons (same_fieldSchema a b hab.1 e e' he) hes)
        (hc.trans left right rel hc')

variable (hl : left.InRange) (hr : right.InRange) (hb : Registry.Bisimulation left right rel)

include hl hr hb in
/-- The definitions of structs that agree run alike, if the exports of what is within do. -/
theorem runsAlike_exportDefinition {n n' : Nat} (exp exp' : Ty → Export Json)
    (hexp : Mirrors left right rel n n' exp exp') (i j : Nat) (hij : rel i j) {s s' : Exporting}
    (hspace : s.space = s'.space)
    (hw : List.Forall₂ (Registry.HandlesMatch left right rel) s.written s'.written)
    (hu : unwritten left s.written ≤ n) (hu' : unwritten right s'.written ≤ n') :
    RunsAlike (fun e e' => e.same e' = true) (GoesOn left right rel s s')
      (exportDefinition left exp (.struct i) s) (exportDefinition right exp' (.struct j) s') := by
  have hfields := Registry.matched_fields left right rel hl hr hb i j hij
  rcases hb i j hij with ⟨hnames, hdoc, _⟩
  have hname : (left.struct i).name = (right.struct j).name := congrArg Names.name hnames
  rw [exportDefinition, exportDefinition]
  cases ha : (left.struct i).fields <;> cases hc : (right.struct j).fields <;>
    rw [ha, hc] at hfields <;> cases hfields
  · rw [hname]
    exact .error _ _ _
  · next as bs hmatch =>
      simp only [hname]
      rw [run_bind_of_ok (run_get s), run_bind_of_ok (run_get s')]
      -- The fields are within the namespace of the name, which is the same on both sides.
      refine runsAlike_bind (runsAlike_within left right rel s s' (runsAlike_exportFields left
        right rel n n' exp exp' hexp as bs hmatch _ _ rfl hw hu hu')) ?_
      intro es es' s₁ s₁' hes hcont
      rw [hspace]
      exact .ok _ _ _ _ (same_structSchema hnames hdoc es es' hes) hcont

variable (hu : Relator.BiUnique (Registry.HandlesMatch left right rel))

include hb hu in
/-- Types that have been written are written as the same name. -/
theorem runsAlike_of_mem (exp exp' : Ty → Export Json) (a b : Ty) (h h' : Handle)
    (ha : a.core = .named h) (hb' : b.core = .named h')
    (hm : Registry.HandlesMatch left right rel h h') (s s' : Exporting)
    (hw : List.Forall₂ (Registry.HandlesMatch left right rel) s.written s'.written)
    (hmem : h ∈ s.written) :
    RunsAlike (fun e e' => e.same e' = true) (GoesOn left right rel s s')
      (exportTypeWith left exp a s) (exportTypeWith right exp' b s') := by
  have hmem' := (Registry.mem_iff_of_handlesMatch left right rel hu hm hw).mp hmem
  rw [exportTypeWith_of_mem left exp a _ s ha hmem,
    exportTypeWith_of_mem right exp' b _ s' hb' hmem', Registry.nameOf, Registry.nameOf,
    Registry.namesOf_eq_of_typesMatch left right rel hb _ _ hm.agree]
  exact .ok _ _ _ _ (Json.same_refl _) (.refl left right rel s s' hw)

include hl hr hb hu in
/-- One level of an export mirrors another, if what is within does where fewer structs are
    left. -/
theorem mirrors_exportTypeWith (n n' : Nat) (exp exp' : Ty → Export Json)
    (hexp : ∀ m m', m < n → m' < n' → Mirrors left right rel m m' exp exp') :
    Mirrors left right rel n n' (exportTypeWith left exp) (exportTypeWith right exp') := by
  intro a b s s' hab hspace hw hn hn'
  have hcore := hab.core.2
  generalize ha : a.core = x at hcore
  generalize hb' : b.core = y at hcore
  have hrefl := GoesOn.refl left right rel s s' hw
  rcases hcore with ⟨hcovers, hcovers', hmatch⟩
  cases hmatch with
  | scalar kind =>
      unfold exportTypeWith
      rw [ha, hb']
      exact .ok _ _ _ _ (Json.same_refl _) hrefl
  | decimal type =>
      unfold exportTypeWith
      rw [ha, hb']
      exact .ok _ _ _ _ (Json.same_refl _) hrefl
  | enumeration i j he =>
      have hm : Registry.HandlesMatch left right rel (.enumeration i) (.enumeration j) :=
        ⟨hcovers, hcovers', .enumeration i j he⟩
      have hiff := Registry.mem_iff_of_handlesMatch left right rel hu hm hw
      by_cases hmem : Handle.enumeration i ∈ s.written
      · exact runsAlike_of_mem left right rel hb hu exp exp' a b _ _ ha hb' hm s s' hw hmem
      · have hmem' := mt hiff.mpr hmem
        rw [exportTypeWith_of_not_mem left exp a _ s ha hmem,
          exportTypeWith_of_not_mem right exp' b _ s' hb' hmem', exportDefinition_enumeration,
          exportDefinition_enumeration, he, hspace]
        exact .ok _ _ _ _ (Json.same_refl _)
          ⟨⟨List.suffix_cons _ _, List.suffix_cons _ _, .cons hm hw⟩, hspace.symm, rfl⟩
  | struct i j hij =>
      have hm : Registry.HandlesMatch left right rel (.struct i) (.struct j) :=
        ⟨hcovers, hcovers', .struct i j hij⟩
      have hiff := Registry.mem_iff_of_handlesMatch left right rel hu hm hw
      by_cases hmem : Handle.struct i ∈ s.written
      · exact runsAlike_of_mem left right rel hb hu exp exp' a b _ _ ha hb' hm s s' hw hmem
      · have hmem' := mt hiff.mpr hmem
        -- The struct that is defined is one fewer that is left, on both sides.
        have hlt := Nat.lt_of_lt_of_le (unwritten_cons_lt left _ i hcovers hmem) hn
        have hlt' := Nat.lt_of_lt_of_le (unwritten_cons_lt right _ j hcovers' hmem') hn'
        rw [exportTypeWith_of_not_mem left exp a _ s ha hmem,
          exportTypeWith_of_not_mem right exp' b _ s' hb' hmem']
        exact runsAlike_mono (fun _ _ hc => ⟨hc.written.of_cons, hc.space, hc.space'⟩)
          (runsAlike_exportDefinition left right rel hl hr hb exp exp'
            (hexp _ _ hlt hlt') i j hij hspace (.cons hm hw) (Nat.le_refl _) (Nat.le_refl _))
  | unparsed a' _ _ => exact absurd ha (Ty.core_ne_unparsed a a')

include hl hr hb hu in
/-- Exports of types that match run alike, if their depths allow for what is left. -/
theorem mirrors_exportTypeAt (depth depth' : Nat) :
    Mirrors left right rel depth depth' (exportTypeAt left depth) (exportTypeAt right depth') := by
  -- On one depth for every other one: at zero nothing is left that could run out.
  induction depth generalizing depth' with
  | zero =>
      rcases exportTypeAt_eq_with right depth' with ⟨exp', hexp'⟩
      rw [hexp']
      exact mirrors_exportTypeWith left right rel hl hr hb hu 0 depth' _ _
        fun m m' hm => absurd hm (Nat.not_lt_zero m)
  | succ depth ih =>
      cases depth' with
      | zero =>
          exact mirrors_exportTypeWith left right rel hl hr hb hu (depth + 1) 0 _ _
            fun m m' _ hm' => absurd hm' (Nat.not_lt_zero m')
      | succ depth' =>
          exact mirrors_exportTypeWith left right rel hl hr hb hu (depth + 1) (depth' + 1) _ _
            fun m m' hm hm' => mirrors_mono left right rel m m' depth depth' _ _
              (Nat.le_of_lt_succ hm) (Nat.le_of_lt_succ hm') (ih depth')

end

end Avro

/-- The same document or the same error. -/
def SameResult : Except SchemaError Json → Except SchemaError Json → Prop
  | .ok e, .ok e' => e.same e' = true
  | .error e, .error e' => e = e'
  | _, _ => False

/-- Types that match are exported alike. -/
theorem sameResult_toSchema (left right : Registry) (rel : Nat → Nat → Prop)
    (hl : left.InRange) (hr : right.InRange) (hb : Registry.Bisimulation left right rel)
    (hu : Relator.BiUnique (Registry.HandlesMatch left right rel)) (s t : Ty)
    (hst : Registry.Matched left right rel s t) :
    SameResult (toSchema left s) (toSchema right t) := by
  have hrun := Avro.mirrors_exportTypeAt left right rel hl hr hb hu left.structs.length
    right.structs.length s t ⟨[], none⟩ ⟨[], none⟩ hst rfl .nil (Avro.unwritten_nil_le left)
    (Avro.unwritten_nil_le right)
  rw [toSchema_eq, toSchema_eq, Avro.exportType, Avro.exportType]
  generalize Avro.exportTypeAt left left.structs.length s ⟨[], none⟩ = x at hrun
  generalize Avro.exportTypeAt right right.structs.length t ⟨[], none⟩ = y at hrun
  cases hrun with
  | ok e e' _ _ he _ => exact he
  | error e _ _ => exact rfl

end Schemata
