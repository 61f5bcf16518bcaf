import Mathlib.Logic.Relation
import Schemata.Proofs.Ownership

/-!
# Computations and Histories

Whatever is computed on a workspace, what it leaves behind has a history.

A `Run` is made of single operations on registries. The computations that are
really made do several of them, look things up in between, and may fail half-way
with what has been done so far in place. To see that none of them leaves the
realm of runs, it is enough to look at their parts: a relation that is reflexive
and transitive is kept by a sequence if both of its parts keep it (`along_bind`).

Two such relations are needed. In the registry of one label a computation makes
moves (`Registry.Moves`), and moves under a label lead from a workspace to another
one, with a history that has only grown (`Workspace.Leads`).

## Main definitions

* `Registry.Moves`: Registrations, changes and assignments, in any number.
* `Workspace.Leads`: Where there was a history, there is one that extends it.

## Theorems

* `Workspace.leads_put`: Moves under a label.
* `Workspace.exists_history`: Whatever has been done, there is a sound history of it.
* `TypeDraft.along_build`, `FieldDraft.along_build`: What drafts register.
* `Working.along_assign`, `Working.along_copy`: Operations leave runs behind.
* `Workspace.Leads.exists_grant`: An assignment is known to every later history.
* `Working.ownership_along`: Who accepts the assigned fields later on.
-/

namespace Schemata

/-! ### Moves of a registry -/

/-- Types are registered, headings changed and fields assigned, in any number and order. -/
def Registry.Moves : Registry → Registry → Prop :=
  Relation.ReflTransGen fun r r' => r.Revised r' ∨ r.Assigns r'

instance : IsPreorder Registry Registry.Moves where
  refl _ := .refl
  trans _ _ _ := Relation.ReflTransGen.trans

namespace Registry

variable (r r' : Registry)

theorem Revised.moves (h : r.Revised r') : r.Moves r' :=
  .single (Or.inl h)

theorem Assigns.moves (h : r.Assigns r') : r.Moves r' :=
  .single (Or.inr h)

end Registry

theorem Building.along_lookup (name : String) : Along Registry.Moves (lookup name) :=
  along_bind along_get fun _ => along_ofExcept

theorem StructDraft.along_register (draft : StructDraft) :
    Along Registry.Moves draft.register := by
  refine along_bind Building.along_ofConstruction fun s => ?_
  refine along_bind (Building.along_update _ ?_) fun _ => along_pure
  exact fun r r' i h => Registry.Revised.moves r r' (.struct r' s i h)

theorem EnumDraft.along_register (draft : EnumDraft) : Along Registry.Moves draft.register := by
  refine along_bind Building.along_ofConstruction fun e => ?_
  refine along_bind (Building.along_update _ ?_) fun _ => along_pure
  exact fun r r' i h => Registry.Revised.moves r r' (.enumeration r' e i h)

theorem TypeDraft.along_build (draft : TypeDraft) : Along Registry.Moves draft.build := by
  induction draft with
  | scalar kind => exact along_pure
  | decimal draft =>
      exact along_bind Building.along_ofConstruction fun _ => along_pure
  | struct draft => exact along_bind draft.along_register fun _ => along_pure
  | enumeration draft => exact along_bind draft.along_register fun _ => along_pure
  | reference name => exact along_bind (Building.along_lookup name) fun _ => along_pure
  | unparsed inner ih => exact along_bind ih fun _ => along_pure

/-- Only the type of a field is registered. What comes after it may fail, and the type stays. -/
theorem FieldDraft.along_build (draft : FieldDraft) : Along Registry.Moves draft.build := by
  refine along_bind draft.type.along_build fun type => ?_
  -- The aliases are given or not, and what sets the default is the same after either.
  cases draft.aliases <;> refine along_bind ?_ fun field => ?_
  case none.refine_1 => exact along_pure
  case some.refine_1 => exact Building.along_ofConstruction
  all_goals
    cases draft.default with
    | none => exact along_pure
    | some default =>
        simp only []
        cases default.build with
        | ok value => exact Building.along_ofConstruction
        | error e => exact along_throw

/-- An import that fails has been rolled back. -/
theorem Registry.along_importSchema (schema : Json) :
    Along Registry.Moves (fun r => r.importSchema schema) := by
  intro r
  simp only []
  cases h : r.importSchema schema with
  | ok t r' => exact Assigns.moves r r' (.imported r' schema t h)
  | error e r' =>
      rw [importSchema_eq_error r r' schema e h]
      exact .refl

/-! ### Histories that grow -/

/-- Wherever there is a history, what has been done since extends it. -/
def Workspace.Leads (w w' : Workspace) : Prop :=
  ∀ h, Run w h → ∃ h', Run w' h' ∧ h.grants <+: h'.grants

instance : IsPreorder Workspace Workspace.Leads where
  refl _ h hr := ⟨h, hr, List.prefix_refl _⟩
  trans _ _ _ hfirst hsecond h hr := by
    rcases hfirst h hr with ⟨h', hr', hgrants⟩
    rcases hsecond h' hr' with ⟨h'', hr'', hgrants'⟩
    exact ⟨h'', hr'', hgrants.trans hgrants'⟩

namespace Workspace

variable (w : Workspace) (label : String)

theorem leads_create : w.Leads (w.create label) :=
  fun h hr => ⟨_, .create w h label hr, List.prefix_refl _⟩

theorem leads_visit : w.Leads (w.visit label).1 := by
  rcases h : w.registries.lookup label with _ | r
  · rw [visit, h]
    exact w.leads_create label
  · rw [w.visit_of_lookup label r h]
    exact IsPreorder.toRefl.refl w

/-- A registry has moved under its label. -/
theorem leads_put (r r' : Registry) (hl : w.registries.lookup label = some r) (hm : r.Moves r') :
    w.Leads (w.put label r') := by
  -- The induction goes along the moves. Each of them is put where the one before was.
  induction hm with
  | refl =>
      rw [w.put_of_lookup label r hl]
      exact fun h hr => ⟨h, hr, List.prefix_refl _⟩
  | @tail r₁ r₂ _ hstep ih =>
      refine IsTrans.trans _ _ _ ih ?_
      have hl₁ : (w.put label r₁).registries.lookup label = some r₁ := by
        rw [lookup_put, if_pos rfl]
      rw [← w.put_put label r₁ r₂]
      intro h hr
      rcases hstep with hrevised | hassigns
      · exact ⟨h, .revise _ h label r₁ r₂ hr hl₁ hrevised, List.prefix_refl _⟩
      · rcases hr.exists_mark _ h label r₁ hl₁ with ⟨mark, hm⟩
        exact ⟨_, .assign _ h label r₁ r₂ mark hr hl₁ hm hassigns, List.prefix_append _ _⟩

/-- Whatever has led here from the empty workspace, there is a sound history of it, and it knows
    all registries. -/
theorem exists_history (hw : empty.Leads w) : ∃ h, Run w h ∧ Sound w h ∧
    ∀ label r, w.registries.lookup label = some r →
      ∃ mark, h.mark label = some mark ∧ r.token = mark.origin := by
  rcases hw .empty .empty with ⟨h, hr, _⟩
  refine ⟨h, hr, hr.sound w h, fun label r hl => ?_⟩
  rcases hr.exists_mark w h label r hl with ⟨mark, hm⟩
  exact ⟨mark, hm, (hr.sound w h).token label mark r hm hl⟩

end Workspace

/-! ### Operations -/

namespace Working

theorem along_registry (label : String) : Along Workspace.Leads (registry label) :=
  fun w => w.leads_visit label

/-- A computation that moves a registry is made under a label. -/
theorem along_inside {α : Type} (label : String) (building : Building α)
    (h : Along Registry.Moves building) : Along Workspace.Leads (inside label building) := by
  intro w
  have hm := h (w.visit label).2
  have hput := fun r' =>
    (w.visit label).1.leads_put label (w.visit label).2 r' (w.lookup_visit label)
  rw [inside_eq]
  refine IsTrans.trans _ _ _ (w.leads_visit label) ?_
  cases hb : building (w.visit label).2 with
  | ok a r' | error e r' =>
      rw [hb] at hm
      exact hput r' hm

/-- An edit of a registry is made under a label. -/
theorem along_update (label : String) (edit : Registry → Except SchemaError Registry)
    (h : ∀ r r', edit r = .ok r' → r.Moves r') : Along Workspace.Leads (update label edit) := by
  intro w
  rw [update_eq]
  refine IsTrans.trans _ _ _ (w.leads_visit label) ?_
  cases he : edit (w.visit label).2 with
  | ok r' =>
      exact (w.visit label).1.leads_put label _ r' (w.lookup_visit label) (h _ r' he)
  | error e => exact Std.Refl.refl (r := Workspace.Leads) _

theorem along_copy (source target : String) : Along Workspace.Leads (copy source target) := by
  intro w
  rw [copy_eq]
  refine IsTrans.trans _ _ _ (w.leads_visit source) ?_
  intro h hr
  have hl := w.lookup_visit source
  rcases hr.exists_mark _ h source _ hl with ⟨mark, hm⟩
  exact ⟨_, .copy _ h source target _ mark hr hl hm, List.prefix_refl _⟩

/-- Any change of a heading. -/
theorem along_perform (label : String) (c : Change) :
    Along Workspace.Leads (update label (·.perform c)) :=
  along_update label _ fun r r' h => Registry.Revised.moves r r' (.change r' c h)

theorem along_declare {α : Type} (label : String) (draft : Except ConstructionFault α)
    (register : Building Handle) (h : Along Registry.Moves register) :
    Along Workspace.Leads (declare label draft register) := by
  cases draft with
  | ok _ => exact along_inside label register h
  | error fault => exact along_throw

theorem along_declareStruct (label : String) (draft : StructDraft) :
    Along Workspace.Leads (declareStruct label draft) :=
  along_declare label _ _ draft.along_register

theorem along_declareEnum (label : String) (draft : EnumDraft) :
    Along Workspace.Leads (declareEnum label draft) :=
  along_declare label _ _ draft.along_register

theorem along_importText (label text : String) : Along Workspace.Leads (importText label text) :=
  along_bind along_ofExcept fun document =>
    along_inside label _ (Registry.along_importSchema document)

theorem along_structNamed (label name : String) :
    Along Workspace.Leads (structNamed label name) := by
  refine along_bind (along_registry label) fun r => along_bind along_ofExcept ?_
  rintro (i | i)
  · exact along_pure
  · exact along_throw

end Working

/-- To make a field may register its type, or registries that were not there. -/
theorem FieldSource.along_build (label : String) (source : FieldSource) :
    Along Workspace.Leads (source.build label) := by
  cases source with
  | loose name =>
      refine along_bind along_get fun w => ?_
      cases w.fields.lookup name with
      | none => exact along_throw
      | some field => exact along_pure
  | taken source struct field =>
      refine along_bind (Working.along_structNamed source struct) fun i => ?_
      exact along_bind (Working.along_registry source) fun r => along_ofExcept
  | drafted draft => exact Working.along_inside label _ draft.along_build

/-- Fields of any sources are assigned to a struct. -/
theorem Working.along_assign (label struct : String) (sources : List FieldSource) :
    Along Workspace.Leads (assign label struct sources) := by
  refine along_bind (along_structNamed label struct) fun i => ?_
  refine along_bind (along_mapM _ (FieldSource.along_build label) sources) fun fields => ?_
  refine along_bind (along_update label _ fun r r' h => ?_) fun _ => along_pure
  exact Registry.Assigns.moves r r' (.setFields r' i fields h)

/-! ### Whose fields -/

section

variable (w w₁ w₂ : Workspace) (label label' : String) (i j : Nat) (fields fields' : List Field)

/-- An assignment is written down in a history of whatever has been reached since. -/
theorem Workspace.Leads.exists_grant (hw : empty.Leads w)
    (hi : i < (w.visit label).2.structs.length)
    (hset : Working.update label (·.setFields i fields) w = .ok () w₁) (hlater : w₁.Leads w₂) :
    ∃ h, Run w₂ h ∧ ∃ g ∈ h.grants, g.struct = i ∧ g.mark.origin = (w.visit label).2.token ∧
      g.fields = fields.map (·.stamp ((w.visit label).2.owner i)) := by
  have hl := w.lookup_visit label
  rcases exists_history _ (IsTrans.trans _ _ _ hw (w.leads_visit label)) with ⟨h, hr, _, hmarks⟩
  rcases hmarks label _ hl with ⟨mark, hm, htoken⟩
  rcases (Working.update_eq_ok_iff w label w₁ _).mp hset with ⟨r', hr', rfl⟩
  have hrun := Run.assign _ h label _ r' mark hr hl hm (.setFields r' i fields hr')
  rcases hlater _ hrun with ⟨h₂, hrun₂, hgrants⟩
  rcases (Registry.setFields_eq_ok_iff _ r' i fields).mp hr' with ⟨hnone, _, _, rfl⟩
  -- The grant is among those of the assignment, and none of these is lost later.
  refine ⟨h₂, hrun₂, ⟨mark, i, fields.map (·.stamp ((w.visit label).2.owner i))⟩,
    hgrants.subset (List.mem_append_right _ ?_), rfl, htoken.symm, rfl⟩
  refine (Registry.mem_granted_iff _ _ mark _).mpr ⟨rfl, hnone, ?_⟩
  rw [Registry.struct_setStruct_self _ i _ hi]

/-- Once fields have been assigned to a struct, and whatever has been done since, copies of them
    are accepted only by the struct at the same place of a registry with the same token. Any
    other struct without fields says that they belong to somebody else, and nothing changes. -/
theorem Working.ownership_along (hw : Workspace.empty.Leads w)
    (hi : i < (w.visit label).2.structs.length)
    (hset : update label (·.setFields i fields) w = .ok () w₁) (hlater : w₁.Leads w₂)
    (hcopy : ∃ field ∈ fields', ∃ given ∈ fields,
      (given.stamp ((w.visit label).2.owner i)).CopyOf field) :
    (∀ w₃, update label' (·.setFields j fields') w₂ = .ok () w₃ →
      j = i ∧ (w₂.visit label').2.token = (w.visit label).2.token) ∧
    (((w₂.visit label').2.struct j).fields = none →
      ¬ (j = i ∧ (w₂.visit label').2.token = (w.visit label).2.token) →
      ∃ name, update label' (·.setFields j fields') w₂ =
        .error (.state (.foreignField name)) (w₂.visit label').1) := by
  have hl := w₂.lookup_visit label'
  -- The computations are recorded as a run, in which the assignment is a grant.
  rcases Workspace.Leads.exists_grant w w₁ _ label i fields hw hi hset
    (IsTrans.trans _ _ _ hlater (w₂.leads_visit label')) with ⟨h, hr, g, hg, rfl, horigin, hfields⟩
  rcases hr.exists_mark _ h label' _ hl with ⟨mark, hm⟩
  have hs := hr.sound
  have htoken := hs.token label' mark _ hm hl
  have hgiven : ∃ field ∈ fields', ∃ given ∈ g.fields, given.CopyOf field := by
    rcases hcopy with ⟨field, hfield, given, hmem, hcopy⟩
    exact ⟨field, hfield, _, hfields ▸ List.mem_map_of_mem hmem, hcopy⟩
  rw [htoken, ← horigin]
  constructor
  · intro w₃ hset'
    rcases (update_eq_ok_iff w₂ label' w₃ _).mp hset' with ⟨r', hr', _⟩
    have hsame := hs.origin_of_accepted hg hm hl j fields' r' hr' hgiven
    exact ⟨hsame.1, hsame.2.1⟩
  · intro hnone hother
    rcases hs.refused_of_copy hg hm hl j fields' hnone hgiven hother with ⟨name, hname⟩
    refine ⟨name, ?_⟩
    rw [update_eq]
    simp only [hname]

end

end Schemata
