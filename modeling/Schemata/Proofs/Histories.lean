import Schemata.Proofs.FieldLists

/-!
# Histories of Workspaces

Which registry is which, and which fields were assigned where.

None of this can be read off a workspace: a copy of a registry looks like its
model, and an assignment leaves no trace but the fields. So a run carries a
`History` along. Each registry that is made, new or as a copy, gets a number of
its own (`Mark.number`) and the number of the new registry that it goes back to
(`Mark.origin`), and each assignment of fields is written down (`Grant`).

The invariant is `Sound`. It says that tokens are origins, that all granted fields
bear the stamp of origin and place, and that a struct to which fields were granted
has not lost them. Every step keeps it, for a registry is either put in place with
a number that was not used before (`Sound.place`), or is replaced by one in which
nothing is lost (`Sound.put`), and what is written down then bears the stamp of the
struct that it was assigned to (`Sound.grant`).

## Main definitions

* `Mark`, `Grant`, `History`: What is remembered of a run.
* `Run`: A workspace with the history that has led to it.
* `Sound`: What the history says about the workspace.

## Theorems

* `Registry.Adds.stamped`, `Registry.Assigns.stamped`: Fields are assigned with the
  stamp of their struct.
* `Run.exists_mark`: Every registry is known to the history.
* `Run.sound`: Histories are sound.
-/

namespace Schemata

/-- Which registry it is. -/
structure Mark where
  /-- How many registries had been made before, new or as copies. -/
  number : Nat
  /-- How many new registries had been made before the one that this one goes back to. -/
  origin : Nat
  deriving DecidableEq, Repr

/-- An assignment of fields to the struct at a place of a registry. -/
structure Grant where
  mark : Mark
  struct : Nat
  fields : List Field
  deriving Repr

/-- What is remembered of a run. -/
structure History where
  /-- The number of registries that have been made. -/
  made : Nat
  /-- The number of those that were made new. -/
  roots : Nat
  /-- Which registry is under a label. -/
  mark : String → Option Mark
  grants : List Grant

namespace History

/-- Nothing has happened. -/
def empty : History :=
  ⟨0, 0, fun _ => none, []⟩

/-- A new registry is put under a label. -/
def create (h : History) (label : String) : History :=
  { h with
    made := h.made + 1
    roots := h.roots + 1
    mark := Function.update h.mark label (some ⟨h.made, h.roots⟩) }

/-- A copy of a marked registry is put under a label. -/
def copy (h : History) (label : String) (model : Mark) : History :=
  { h with
    made := h.made + 1
    mark := Function.update h.mark label (some ⟨h.made, model.origin⟩) }

theorem mark_create (h : History) (label other : String) : (h.create label).mark other
    = if other = label then some ⟨h.made, h.roots⟩ else h.mark other :=
  Function.update_apply _ _ _ _

theorem mark_copy (h : History) (label other : String) (model : Mark) :
    (h.copy label model).mark other
      = if other = label then some ⟨h.made, model.origin⟩ else h.mark other :=
  Function.update_apply _ _ _ _

/-- Fields are assigned. -/
def grant (h : History) (grants : List Grant) : History :=
  { h with grants := h.grants ++ grants }

end History

namespace Registry

/-- Something is registered, renamed or documented. A struct may be registered with the fields
    of its model. -/
inductive Revised (r : Registry) : Registry → Prop
  | struct (r' : Registry) (s : StructType) (i : Nat) (h : r.registerStruct s = .ok (r', i)) :
      Revised r r'
  | enumeration (r' : Registry) (e : EnumType) (i : Nat) (h : r.registerEnum e = .ok (r', i)) :
      Revised r r'
  | change (r' : Registry) (c : Change) (h : r.perform c = .ok r') : Revised r r'

/-- Fields are assigned to a struct, or to all the structs of an import. -/
inductive Assigns (r : Registry) : Registry → Prop
  | setFields (r' : Registry) (i : Nat) (fields : List Field) (h : r.setFields i fields = .ok r') :
      Assigns r r'
  | imported (r' : Registry) (schema : Json) (t : Ty) (h : r.importSchema schema = .ok t r') :
      Assigns r r'

/-- The structs that have fields in the second registry and had none in the first. -/
def granted (r r' : Registry) (mark : Mark) : List Grant :=
  (List.range r'.structs.length).filterMap fun i =>
    if (r.struct i).fields.isSome then none
    else (r'.struct i).fields.map fun fields => ⟨mark, i, fields⟩

end Registry

/-- A workspace, and the history that has led to it. To fail is no case of its own: what has been
    done before stays, and what fails itself does nothing. -/
inductive Run : Workspace → History → Prop
  | empty : Run .empty .empty
  | beside (w w' : Workspace) (h : History) (hr : Run w h) (ht : w'.nextToken = w.nextToken)
      (hl : w'.registries = w.registries) : Run w' h
  | create (w : Workspace) (h : History) (label : String) (hr : Run w h) :
      Run (w.create label) (h.create label)
  | copy (w : Workspace) (h : History) (source target : String) (r : Registry) (mark : Mark)
      (hr : Run w h) (hl : w.registries.lookup source = some r) (hm : h.mark source = some mark) :
      Run (w.put target r) (h.copy target mark)
  | revise (w : Workspace) (h : History) (label : String) (r r' : Registry) (hr : Run w h)
      (hl : w.registries.lookup label = some r) (ho : r.Revised r') : Run (w.put label r') h
  | assign (w : Workspace) (h : History) (label : String) (r r' : Registry) (mark : Mark)
      (hr : Run w h) (hl : w.registries.lookup label = some r) (hm : h.mark label = some mark)
      (ho : r.Assigns r') : Run (w.put label r') (h.grant (r.granted r' mark))

/-! ### What operations keep -/

namespace Registry

section

variable (r r' : Registry)

theorem settled_of_below (h : Below r r') : Settled r r' := by
  intro i bodies hb
  rw [StructType.body, Option.map_eq_some_iff] at hb
  rcases hb with ⟨fields, hf, hbodies⟩
  rw [h.struct_eq i (r.lt_of_struct_fields i fields hf), StructType.body, hf, Option.map_some,
    hbodies]

/-- A struct that has fields does not lose them. -/
theorem Settled.fields_ne_none (h : Settled r r') (i : Nat) (hf : (r.struct i).fields ≠ none) :
    (r'.struct i).fields ≠ none := by
  rcases hfields : (r.struct i).fields with _ | fields
  · exact absurd hfields hf
  · have hbody := h i (fields.map Field.body) (by rw [StructType.body, hfields, Option.map_some])
    intro hnone
    rw [StructType.body, hnone] at hbody
    cases hbody

theorem Revised.keeps (h : r.Revised r') : r'.token = r.token ∧ Settled r r' := by
  cases h with
  | struct s i h =>
      rcases (r.registerStruct_eq_ok_iff r' s i).mp h with ⟨_, rfl, _⟩
      exact ⟨rfl, r.settled_of_below _ (.appendStruct s)⟩
  | enumeration e i h =>
      rcases (r.registerEnum_eq_ok_iff r' e i).mp h with ⟨_, rfl, _⟩
      exact ⟨rfl, r.settled_of_below _ (.appendEnum e)⟩
  | change c h =>
      have hs := r.skeleton_perform r' c h
      exact ⟨congrArg Skeleton.token hs, r.settled_of_skeleton r' hs⟩

theorem Assigns.keeps (h : r.Assigns r') : r'.token = r.token ∧ Settled r r' := by
  cases h with
  | setFields i fields h =>
      have hsettled := r.settled_setFields r' i fields h
      rcases (r.setFields_eq_ok_iff r' i fields).mp h with ⟨_, _, _, rfl⟩
      exact ⟨rfl, hsettled⟩
  | imported schema t h =>
      have hb := (adds_of_importSchema r r' schema t h).keeps
      exact ⟨hb.token, r.settled_of_below r' hb⟩

/-- Assigned fields bear the stamp of their struct. -/
theorem stamped_setFields (i j : Nat) (fields given : List Field)
    (h : r.setFields i fields = .ok r') (hnone : (r.struct j).fields = none)
    (hf : (r'.struct j).fields = some given) : ∀ field ∈ given, field.owner = some (r.owner j) := by
  rcases (r.setFields_eq_ok_iff r' i fields).mp h with ⟨_, _, _, rfl⟩
  -- Only the struct that is assigned its fields comes to have some.
  by_cases hj : j = i
  · by_cases hi : i < r.structs.length
    · rw [hj, r.struct_setStruct_self i _ hi, Option.some.injEq] at hf
      intro field hm
      rw [← hf, List.mem_map] at hm
      rcases hm with ⟨_, _, rfl⟩
      rw [hj]
      rfl
    · rw [r.setStruct_eq_self i _ hi, hnone] at hf
      exact nomatch hf
  · rw [r.struct_setStruct_other i j _ hj, hnone] at hf
    exact nomatch hf

/-- All fields behind the old types have been assigned since, and bear the stamp of their
    struct. -/
theorem Adds.stamped (h : Adds r r') (i : Nat) (given : List Field) (hi : r.structs.length ≤ i)
    (hf : (r'.struct i).fields = some given) : ∀ field ∈ given, field.owner = some (r.owner i) := by
  induction h generalizing given with
  | refl => exact absurd (r.lt_of_struct_fields i given hf) (Nat.not_lt.mpr hi)
  | struct r₁ s _ hs _ ih =>
      rcases (r₁.holds_appendStruct_iff s (.struct i)).mp (lt_of_struct_fields _ i given hf) with
        hold | hnew
      · rw [r₁.struct_appendStruct_lt s i hold] at hf
        exact ih given hf
      · rw [Handle.struct.inj hnew, r₁.struct_appendStruct_length s, hs] at hf
        exact nomatch hf
  | enumeration r₁ e _ _ ih => exact ih given hf
  | setFields r₁ r₂ j fields hadds _ hset ih =>
      have htoken : r₁.owner i = r.owner i := by
        rw [owner, owner, hadds.keeps.token]
      rcases hold : (r₁.struct i).fields with _ | fields₁
      · rw [← htoken]
        exact r₁.stamped_setFields r₂ j i fields given hset hold hf
      · -- The struct had its fields before, so they are not those that are assigned here.
        rcases (r₁.setFields_eq_ok_iff r₂ j fields).mp hset with ⟨hnone, _, _, rfl⟩
        have hj : i ≠ j := by
          rintro rfl
          rw [hnone] at hold
          exact nomatch hold
        rw [r₁.struct_setStruct_other j i _ hj] at hf
        exact ih given hf

theorem Assigns.stamped (h : r.Assigns r') (i : Nat) (given : List Field)
    (hnone : (r.struct i).fields = none) (hf : (r'.struct i).fields = some given) :
    ∀ field ∈ given, field.owner = some (r.owner i) := by
  cases h with
  | setFields j fields h => exact r.stamped_setFields r' j i fields given h hnone hf
  | imported schema t h =>
      have hadds := adds_of_importSchema r r' schema t h
      by_cases hi : i < r.structs.length
      · -- An import assigns nothing to what was there before.
        rw [hadds.keeps.struct_eq i hi, hnone] at hf
        exact nomatch hf
      · exact hadds.stamped r r' i given (Nat.le_of_not_lt hi) hf

theorem mem_granted_iff (mark : Mark) (g : Grant) : g ∈ r.granted r' mark ↔
    g.mark = mark ∧ (r.struct g.struct).fields = none ∧
      (r'.struct g.struct).fields = some g.fields := by
  rw [granted, List.mem_filterMap]
  constructor
  · rintro ⟨i, _, hg⟩
    -- A struct that had fields before is granted none.
    by_cases hs : (r.struct i).fields.isSome = true
    · rw [if_pos hs] at hg
      exact nomatch hg
    · rw [if_neg hs, Option.map_eq_some_iff] at hg
      rcases hg with ⟨fields, hf, rfl⟩
      rw [Bool.not_eq_true, Option.isSome_eq_false_iff, Option.isNone_iff_eq_none] at hs
      exact ⟨rfl, hs, hf⟩
  · rintro ⟨rfl, hnone, hf⟩
    refine ⟨g.struct, List.mem_range.mpr (r'.lt_of_struct_fields _ _ hf), ?_⟩
    rw [hnone, if_neg (by simp only [Option.isSome_none, Bool.false_eq_true, not_false_eq_true]),
      hf, Option.map_some]

end

end Registry

/-! ### Sound histories -/

/-- What the history says about the workspace: tokens are origins, numbers are not used twice,
    and what was granted bears the stamp of the grant and is still there. -/
structure Sound (w : Workspace) (h : History) : Prop where
  roots : w.nextToken = h.roots
  made : ∀ label mark, h.mark label = some mark → mark.number < h.made
  token : ∀ label mark r, h.mark label = some mark → w.registries.lookup label = some r →
    r.token = mark.origin
  unique : ∀ label label' mark mark', h.mark label = some mark → h.mark label' = some mark' →
    mark.number = mark'.number → label = label'
  number : ∀ g ∈ h.grants, g.mark.number < h.made
  stamp : ∀ g ∈ h.grants, ∀ field ∈ g.fields, field.owner = some ⟨g.mark.origin, g.struct⟩
  kept : ∀ g ∈ h.grants, ∀ label mark r, h.mark label = some mark →
    w.registries.lookup label = some r → mark.number = g.mark.number →
      (r.struct g.struct).fields ≠ none

namespace Sound

variable (w w' : Workspace) (h h' : History) (label : String) (r r' : Registry)

/-- A registry is put under a label with a number that has not been used. -/
theorem place (hs : Sound w h) (origin : Nat) (ht : r.token = origin)
    (hroots : w'.nextToken = h'.roots)
    (hlookup : ∀ other, w'.registries.lookup other
      = if other = label then some r else w.registries.lookup other)
    (hmark : ∀ other, h'.mark other
      = if other = label then some ⟨h.made, origin⟩ else h.mark other)
    (hmade : h'.made = h.made + 1) (hgrants : h'.grants = h.grants) : Sound w' h' := by
  -- What was marked before has a smaller number than the registry that is put in place.
  have hcases : ∀ other mark, h'.mark other = some mark →
      (other = label ∧ mark = ⟨h.made, origin⟩) ∨
        (other ≠ label ∧ h.mark other = some mark ∧ mark.number < h.made) := by
    intro other mark hm
    rw [hmark] at hm
    by_cases ho : other = label
    · rw [if_pos ho, Option.some.injEq] at hm
      exact Or.inl ⟨ho, hm.symm⟩
    · rw [if_neg ho] at hm
      exact Or.inr ⟨ho, hm, hs.made other mark hm⟩
  constructor
  case roots => exact hroots
  case made =>
    intro other mark hm
    rw [hmade]
    rcases hcases other mark hm with ⟨_, rfl⟩ | ⟨_, _, hlt⟩
    · exact Nat.lt_succ_self _
    · omega
  case token =>
    intro other mark q hm hq
    rw [hlookup] at hq
    rcases hcases other mark hm with ⟨ho, rfl⟩ | ⟨ho, hold, _⟩
    · rw [if_pos ho, Option.some.injEq] at hq
      rw [← hq, ht]
    · rw [if_neg ho] at hq
      exact hs.token other mark q hold hq
  case unique =>
    intro a b mark mark' ha hb hn
    -- The new number is greater than all others, so it is met once only.
    rcases hcases a mark ha with ⟨hla, rfl⟩ | ⟨_, ha, hlt⟩ <;>
      rcases hcases b mark' hb with ⟨hlb, rfl⟩ | ⟨_, hb, hlt'⟩
    · rw [hla, hlb]
    · simp only at hn
      omega
    · simp only at hn
      omega
    · exact hs.unique a b mark mark' ha hb hn
  case number =>
    intro g hg
    rw [hgrants] at hg
    have hlt := hs.number g hg
    omega
  case stamp =>
    intro g hg
    rw [hgrants] at hg
    exact hs.stamp g hg
  case kept =>
    intro g hg other mark q hm hq hn
    rw [hgrants] at hg
    rw [hlookup] at hq
    have hlt := hs.number g hg
    rcases hcases other mark hm with ⟨_, rfl⟩ | ⟨ho, hold, _⟩
    · -- Nothing has been granted yet under the new number.
      simp only at hn
      omega
    · rw [if_neg ho] at hq
      exact hs.kept g hg other mark q hold hq hn

/-- A registry is replaced by one with the same token in which no fields are lost. -/
theorem put (hs : Sound w h) (hl : w.registries.lookup label = some r)
    (hk : r'.token = r.token ∧ r.Settled r') : Sound (w.put label r') h := by
  -- Any registry is the one it was, but for the one that is replaced.
  have hcases : ∀ other q, (w.put label r').registries.lookup other = some q →
      ∃ p, w.registries.lookup other = some p ∧ q.token = p.token ∧ p.Settled q := by
    intro other q hq
    rw [w.lookup_put] at hq
    by_cases ho : other = label
    · rw [if_pos ho, Option.some.injEq] at hq
      rw [← hq, ho]
      exact ⟨r, hl, hk⟩
    · rw [if_neg ho] at hq
      exact ⟨q, hq, rfl, fun _ _ hb => hb⟩
  constructor
  case roots => exact hs.roots
  case made => exact hs.made
  case token =>
    intro other mark q hm hq
    rcases hcases other q hq with ⟨p, hp, htoken, _⟩
    rw [htoken, hs.token other mark p hm hp]
  case unique => exact hs.unique
  case number => exact hs.number
  case stamp => exact hs.stamp
  case kept =>
    intro g hg other mark q hm hq hn
    rcases hcases other q hq with ⟨p, hp, _, hsettled⟩
    exact hsettled.fields_ne_none p q g.struct (hs.kept g hg other mark p hm hp hn)

/-- Grants of the registry under a label are written down. -/
theorem grant (hs : Sound w h) (mark : Mark) (grants : List Grant)
    (hl : w.registries.lookup label = some r) (hm : h.mark label = some mark)
    (hg : ∀ g ∈ grants, g.mark = mark ∧ (r.struct g.struct).fields ≠ none ∧
      ∀ field ∈ g.fields, field.owner = some (r.owner g.struct)) :
    Sound w (h.grant grants) := by
  have hall : ∀ g, g ∈ (h.grant grants).grants ↔ g ∈ h.grants ∨ g ∈ grants := by
    intro g
    rw [History.grant, List.mem_append]
  constructor
  case roots => exact hs.roots
  case made => exact hs.made
  case token => exact hs.token
  case unique => exact hs.unique
  case number =>
    intro g hmem
    rcases (hall g).mp hmem with hold | hnew
    · exact hs.number g hold
    · rw [(hg g hnew).1]
      exact hs.made label mark hm
  case stamp =>
    intro g hmem field hfield
    rcases (hall g).mp hmem with hold | hnew
    · exact hs.stamp g hold field hfield
    · rw [(hg g hnew).2.2 field hfield, Registry.owner, hs.token label mark r hm hl, (hg g hnew).1]
  case kept =>
    intro g hmem other mark' q hm' hq hn
    rcases (hall g).mp hmem with hold | hnew
    · exact hs.kept g hold other mark' q hm' hq hn
    · -- The number is that of the registry under the label, so it is that registry.
      rw [(hg g hnew).1] at hn
      have hother := hs.unique other label mark' mark hm' hm hn
      rw [hother, hl, Option.some.injEq] at hq
      rw [← hq]
      exact (hg g hnew).2.1

end Sound

/-- Every registry is known to the history. -/
theorem Run.exists_mark (w : Workspace) (h : History) (hrun : Run w h) (label : String)
    (r : Registry) (hl : w.registries.lookup label = some r) :
    ∃ mark, h.mark label = some mark := by
  -- A registry that comes in is marked in the same step.
  induction hrun generalizing r with
  | empty => exact nomatch hl
  | beside w w' h _ _ hregistries ih => exact ih r (hregistries ▸ hl)
  | create w h target _ ih =>
      rw [w.lookup_create] at hl
      rw [h.mark_create]
      by_cases ht : label = target
      · rw [if_pos ht]
        exact ⟨_, rfl⟩
      · rw [if_neg ht] at hl ⊢
        exact ih r hl
  | copy w h source target q mark _ _ _ ih =>
      rw [w.lookup_put] at hl
      rw [h.mark_copy]
      by_cases ht : label = target
      · rw [if_pos ht]
        exact ⟨_, rfl⟩
      · rw [if_neg ht] at hl ⊢
        exact ih r hl
  | revise w h target q q' _ hq _ ih =>
      rw [w.lookup_put] at hl
      by_cases ht : label = target
      · exact ih q (ht ▸ hq)
      · rw [if_neg ht] at hl
        exact ih r hl
  | assign w h target q q' mark _ _ hm _ ih =>
      rw [w.lookup_put] at hl
      by_cases ht : label = target
      · exact ⟨mark, ht ▸ hm⟩
      · rw [if_neg ht] at hl
        exact ih r hl

/-- Histories are sound. -/
theorem Run.sound (w : Workspace) (h : History) (hrun : Run w h) : Sound w h := by
  induction hrun with
  | empty =>
      constructor
      case roots => rfl
      case made => exact fun label mark hm => nomatch hm
      case token => exact fun label mark r hm => nomatch hm
      case unique => exact fun label _ mark _ hm => nomatch hm
      case number => exact fun g hg => absurd hg List.not_mem_nil
      case stamp => exact fun g hg => absurd hg List.not_mem_nil
      case kept => exact fun g hg => absurd hg List.not_mem_nil
  | beside w w' h _ ht hl ih =>
      -- Loose fields and outlines have no part in it.
      constructor
      case roots => exact ht.trans ih.roots
      case token => exact hl ▸ ih.token
      case kept => exact hl ▸ ih.kept
      all_goals first | exact ih.made | exact ih.unique | exact ih.number | exact ih.stamp
  | create w h label _ ih =>
      exact ih.place w _ h _ label (.new w.nextToken) h.roots ih.roots
        (congrArg (· + 1) ih.roots) (w.lookup_create label) (h.mark_create label) rfl rfl
  | copy w h source target r mark _ hl hm ih =>
      exact ih.place w _ h _ target r mark.origin (ih.token source mark r hm hl) ih.roots
        (fun other => w.lookup_put target other r) (fun other => h.mark_copy target other mark)
        rfl rfl
  | revise w h label r r' _ hl ho ih => exact ih.put w h label r r' hl (ho.keeps r r')
  | assign w h label r r' mark _ hl hm ho ih =>
      have hput := ih.put w h label r r' hl (ho.keeps r r')
      have hl' : (w.put label r').registries.lookup label = some r' := by
        rw [w.lookup_put, if_pos rfl]
      refine hput.grant _ h label r' mark _ hl' hm fun g hg => ?_
      rcases (r.mem_granted_iff r' mark g).mp hg with ⟨hmark, hnone, hf⟩
      refine ⟨hmark, by rw [hf]; simp only [ne_eq, reduceCtorEq, not_false_eq_true], ?_⟩
      have howner : r'.owner g.struct = r.owner g.struct := by
        rw [Registry.owner, Registry.owner, (ho.keeps r r').1]
      rw [howner]
      exact ho.stamped r r' g.struct g.fields hnone hf

end Schemata
