import Schemata.Proofs.Histories

/-!
# Whose Fields

What the stamp of a field says about the struct that has taken it in.

A struct stamps its fields with the token of its registry and its own place
there, and fields with another stamp are refused. A copy of a field keeps the
stamp, whatever else is changed about it. So far a stamp stands for a struct. But
a copy of a registry keeps the token of its model, and then there are two structs
with one stamp: the struct and its copy, or, if both registries go on to grow,
two structs that have nothing in common but their place.

What stamps do tell apart shows in the `History` of a workspace, which knows the
registries and what was granted to whom. There one can see when copies of granted
fields are accepted (`ownership_by_stamp`). They are refused at any other place and
in any registry of another origin. In the registry of the grant itself the struct
has fields already. What remains are the other registries of the same origin, and
there the struct at the same place accepts them like its own.

## Main definitions

* `Field.CopyOf`: A copy of a field, perhaps changed since.

## Theorems

* `Field.CopyOf.owner_eq`: Copies keep the stamp.
* `Sound.origin_of_accepted`, `Sound.refused_of_copy`, `Sound.accepted_of_copies`: What a
  struct does with copies of granted fields.
* `ownership_by_stamp`: When copies of granted fields are accepted.
* `ownership_not_exclusive`: A struct and its copy can have the same fields.
-/

namespace Schemata

/-- A copy of a field, perhaps renamed, documented or given another default since. -/
inductive Field.CopyOf (given : Field) : Field → Prop
  | copy : CopyOf given given
  | heading (field : Field) (heading : Heading) (h : CopyOf given field) :
      CopyOf given (field.withHeading heading)
  | default (field field' : Field) (default : Default) (h : CopyOf given field)
      (hd : field.withDefault default = .ok field') : CopyOf given field'

/-- A copy keeps the stamp. -/
theorem Field.CopyOf.owner_eq (given field : Field) (h : given.CopyOf field) :
    field.owner = given.owner := by
  induction h with
  | copy => rfl
  | heading field heading _ ih => exact ih
  | default field field' default _ hd ih =>
      rw [withDefault] at hd
      by_cases hs : default.normal.suits field.cardinality = true
      · rw [dif_pos hs, Except.ok.injEq] at hd
        rw [← hd]
        exact ih
      · rw [dif_neg hs] at hd
        exact nomatch hd

/-! ### Copies of granted fields -/

/-- A struct without fields refuses a field that bears another stamp. -/
theorem setFields_of_foreign (r : Registry) (i : Nat) (fields : List Field) (field : Field)
    (o : Owner) (hnone : (r.struct i).fields = none) (hm : field ∈ fields)
    (ho : field.owner = some o) (hne : o ≠ r.owner i) :
    ∃ name, r.setFields i fields = .error (.state (.foreignField name)) := by
  -- The first field that bears another stamp is reported, be it this one or one in front.
  have hforeign : (fields.find? fun field => field.owner.any (· ≠ r.owner i)).isSome = true := by
    rw [List.find?_isSome]
    refine ⟨field, hm, ?_⟩
    rw [ho, Option.any_some, decide_eq_true_eq]
    exact hne
  rw [Option.isSome_iff_exists] at hforeign
  rcases hforeign with ⟨found, hfound⟩
  have hadopt : (r.struct i).adopt (r.owner i) fields
      = .error (.state (.foreignField found.name)) := by
    rw [StructType.adopt, hnone, if_neg (by simp only [Option.isSome_none, Bool.false_eq_true,
      not_false_eq_true]), hfound]
  rw [Registry.setFields, hadopt]
  exact ⟨found.name, rfl⟩

namespace Sound

variable {w : Workspace} {h : History} {g : Grant} {label : String} {mark : Mark} {r : Registry}

/-- A copy bears the stamp of the grant. -/
theorem owner_of_copy (hs : Sound w h) (hg : g ∈ h.grants) (field : Field)
    (hcopy : ∃ given ∈ g.fields, given.CopyOf field) :
    field.owner = some ⟨g.mark.origin, g.struct⟩ := by
  rcases hcopy with ⟨given, hgiven, hcopy⟩
  rw [hcopy.owner_eq, hs.stamp g hg given hgiven]

/-- A struct has the stamp of its origin and place. -/
theorem stamp_eq_owner_iff (hs : Sound w h) (hm : h.mark label = some mark)
    (hl : w.registries.lookup label = some r) (i : Nat) :
    (⟨g.mark.origin, g.struct⟩ : Owner) = r.owner i ↔
      i = g.struct ∧ mark.origin = g.mark.origin := by
  rw [Registry.owner, hs.token label mark r hm hl, Owner.mk.injEq]
  exact ⟨fun h => ⟨h.2.symm, h.1.symm⟩, fun h => ⟨h.2.symm, h.1.symm⟩⟩

/-- Copies of granted fields are accepted only at the same place of another registry of the same
    origin. -/
theorem origin_of_accepted (hs : Sound w h) (hg : g ∈ h.grants) (hm : h.mark label = some mark)
    (hl : w.registries.lookup label = some r) (i : Nat) (fields : List Field) (r' : Registry)
    (hset : r.setFields i fields = .ok r')
    (hcopy : ∃ field ∈ fields, ∃ given ∈ g.fields, given.CopyOf field) :
    i = g.struct ∧ mark.origin = g.mark.origin ∧ mark.number ≠ g.mark.number := by
  rcases hcopy with ⟨field, hfield, hcopy⟩
  rcases (r.setFields_eq_ok_iff r' i fields).mp hset with ⟨hnone, hall, _, _⟩
  have hsame := (hs.stamp_eq_owner_iff hm hl i).mp
    (hall field hfield _ (hs.owner_of_copy hg field hcopy))
  refine ⟨hsame.1, hsame.2, fun hn => ?_⟩
  -- In the registry of the grant the struct has its fields already.
  rw [hsame.1] at hnone
  exact hs.kept g hg label mark r hm hl hn hnone

/-- Anywhere else a struct without fields says that they belong to somebody else. -/
theorem refused_of_copy (hs : Sound w h) (hg : g ∈ h.grants) (hm : h.mark label = some mark)
    (hl : w.registries.lookup label = some r) (i : Nat) (fields : List Field)
    (hnone : (r.struct i).fields = none)
    (hcopy : ∃ field ∈ fields, ∃ given ∈ g.fields, given.CopyOf field)
    (hother : ¬ (i = g.struct ∧ mark.origin = g.mark.origin)) :
    ∃ name, r.setFields i fields = .error (.state (.foreignField name)) := by
  rcases hcopy with ⟨field, hfield, hcopy⟩
  exact setFields_of_foreign r i fields field _ hnone hfield (hs.owner_of_copy hg field hcopy)
    fun he => hother ((hs.stamp_eq_owner_iff hm hl i).mp he)

/-- There a struct without fields accepts them. -/
theorem accepted_of_copies (hs : Sound w h) (hg : g ∈ h.grants) (hm : h.mark label = some mark)
    (hl : w.registries.lookup label = some r) (i : Nat) (fields : List Field)
    (hnone : (r.struct i).fields = none) (hd : FieldsDistinct fields)
    (hcopies : ∀ field ∈ fields, ∃ given ∈ g.fields, given.CopyOf field) (hi : i = g.struct)
    (ho : mark.origin = g.mark.origin) : ∃ r', r.setFields i fields = .ok r' := by
  have hall : ∀ field ∈ fields, ∀ o ∈ field.owner, o = r.owner i := by
    intro field hfield o hmem
    rw [hs.owner_of_copy hg field (hcopies field hfield), Option.mem_def,
      Option.some.injEq] at hmem
    rw [← hmem]
    exact (hs.stamp_eq_owner_iff hm hl i).mpr ⟨hi, ho⟩
  exact ⟨_, (r.setFields_eq_ok_iff _ i fields).mpr ⟨hnone, hall, hd, rfl⟩⟩

end Sound

/-- When copies of granted fields are accepted: only by the struct at the same place of another
    registry of the same origin, and by that struct whenever it has no fields yet. Any other struct
    without fields says that they belong to somebody else. -/
theorem ownership_by_stamp (w : Workspace) (h : History) (hrun : Run w h) (g : Grant)
    (hg : g ∈ h.grants) (label : String) (mark : Mark) (r : Registry)
    (hm : h.mark label = some mark) (hl : w.registries.lookup label = some r) (i : Nat)
    (fields : List Field) :
    ((∃ r', r.setFields i fields = .ok r') →
      (∃ field ∈ fields, ∃ given ∈ g.fields, given.CopyOf field) →
      i = g.struct ∧ mark.origin = g.mark.origin ∧ mark.number ≠ g.mark.number) ∧
    ((r.struct i).fields = none →
      (∃ field ∈ fields, ∃ given ∈ g.fields, given.CopyOf field) →
      ¬ (i = g.struct ∧ mark.origin = g.mark.origin) →
      ∃ name, r.setFields i fields = .error (.state (.foreignField name))) ∧
    ((r.struct i).fields = none → FieldsDistinct fields →
      (∀ field ∈ fields, ∃ given ∈ g.fields, given.CopyOf field) →
      i = g.struct → mark.origin = g.mark.origin → ∃ r', r.setFields i fields = .ok r') := by
  -- Tokens say origins in every run, so a stamp says a struct of one origin.
  have hs := hrun.sound
  refine ⟨?_, hs.refused_of_copy hg hm hl i fields, hs.accepted_of_copies hg hm hl i fields⟩
  rintro ⟨r', hset⟩ hcopy
  exact hs.origin_of_accepted hg hm hl i fields r' hset hcopy

/-! ### A struct and its copy -/

namespace Sample

/-- A registry with a struct that has no fields yet. -/
def unfilled : Registry :=
  ⟨0, [⟨.single "A", none, none⟩], []⟩

/-- The field that is assigned to it. -/
def filling : Field :=
  .new "x" .required (.scalar .string)

/-- The struct has its field. -/
def filled : Registry :=
  ⟨0, [⟨.single "A", none, some [filling.stamp ⟨0, 0⟩]⟩], []⟩

/-- A registry that was copied before the fields were assigned, its copy, and another one. -/
def twins : Workspace :=
  ((((Workspace.empty.create "main").put "main" unfilled).put "copy" unfilled).create "other").put
    "main" filled

/-- What happened to them. -/
def twinsHistory : History :=
  (((History.empty.create "main").copy "copy" ⟨0, 0⟩).create "other").grant
    [⟨⟨0, 0⟩, 0, [filling.stamp ⟨0, 0⟩]⟩]

theorem twins_run : Run twins twinsHistory := by
  have hmain : Run ((Workspace.empty.create "main").put "main" unfilled)
      (History.empty.create "main") :=
    .revise _ _ "main" (.new 0) unfilled (.create _ _ "main" .empty) rfl
      (.struct unfilled ⟨.single "A", none, none⟩ 0 rfl)
  have hcopy := Run.copy _ _ "main" "copy" unfilled ⟨0, 0⟩ hmain rfl rfl
  have hother := Run.create _ _ "other" hcopy
  exact .assign _ _ "main" unfilled filled ⟨0, 0⟩ hother rfl rfl (.setFields filled 0 [filling] rfl)

end Sample

open Sample

theorem ownership_by_stamp_twins :
    (∃ r', unfilled.setFields 0 [filling.stamp ⟨0, 0⟩] = .ok r') ∧
    ∃ name, (Registry.new 1).setFields 0 [filling.stamp ⟨0, 0⟩]
      = .error (.state (.foreignField name)) := by
  have hcopies : ∀ field ∈ [filling.stamp ⟨0, 0⟩],
      ∃ given ∈ [filling.stamp ⟨0, 0⟩], given.CopyOf field :=
    fun field hfield => ⟨field, hfield, .copy⟩
  constructor
  · exact (ownership_by_stamp twins twinsHistory twins_run _ List.mem_cons_self "copy" ⟨1, 0⟩
      unfilled rfl rfl 0 [filling.stamp ⟨0, 0⟩]).2.2 rfl (by decide) hcopies rfl rfl
  · exact (ownership_by_stamp twins twinsHistory twins_run _ List.mem_cons_self "other" ⟨2, 1⟩
      (.new 1) rfl rfl 0 [filling.stamp ⟨0, 0⟩]).2.1 rfl
        ⟨_, List.mem_cons_self, hcopies _ List.mem_cons_self⟩ (by decide)

/-- So it is not true that no struct accepts a copy of a field that was granted to another. -/
theorem ownership_not_exclusive : ¬ ∀ w h, Run w h → ∀ g ∈ h.grants, ∀ label mark r,
    h.mark label = some mark → w.registries.lookup label = some r → ∀ i fields,
      (i ≠ g.struct ∨ mark.number ≠ g.mark.number) →
      (∃ field ∈ fields, ∃ given ∈ g.fields, given.CopyOf field) →
      ∀ r', r.setFields i fields ≠ .ok r' := by
  intro hexclusive
  exact hexclusive twins twinsHistory twins_run _ List.mem_cons_self "copy" ⟨1, 0⟩ unfilled rfl rfl
    0 [filling.stamp ⟨0, 0⟩] (Or.inr (by decide))
    ⟨_, List.mem_cons_self, _, List.mem_cons_self, .copy⟩ filled rfl

end Schemata
