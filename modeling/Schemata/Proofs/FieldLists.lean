import Schemata.Proofs.Avro.Expressible
import Schemata.Proofs.Registry.Changes
import Schemata.Proofs.Registry.FieldIndex
import Schemata.Proofs.Workspaces

/-!
# Fields Over Time

What can happen to the fields of a struct, and what cannot.

A struct gets its fields once. From then on they may be renamed and documented,
from wherever and as often as one likes, and some of the attempts will fail. None
of this touches what the fields are: their number and order, their types,
cardinalities and defaults are those they were assigned with. The reason is that
a change of a heading leaves the skeleton of the registry, and an assignment
leaves it too wherever there are fields already.

Nor does it touch how fields are found. The index that is kept beside the fields
is at all times the one that could be read off the fields
(`Registry.FieldsIndexed.exact`),
so a name finds the one field that carries it and no other.

## Main definitions

* `Step`, `Registry.run`: Assignments and changes, one after the other, whether
  they succeed or not.
* `Registry.Settled`: What has fields keeps them, under whatever headings.

## Theorems

* `Registry.settled_run`: Fields once assigned stay.
* `Registry.exists_setFields_iff`: When fields can be assigned.
* `Registry.field_lists_kept`: Fields and their lookup, after any such run in any
  registry there can be.
-/

namespace Schemata

/-- An assignment of fields, or a change of a heading. -/
inductive Step where
  | assign (struct : Nat) (fields : List Field)
  | change (c : Change)
  deriving Repr

namespace StructType

variable (s : StructType) (fields : List Field) (place : Nat) (hp : place < fields.length)

/-- The field at a place is found under its names only. -/
theorem position_eq_ok_iff_carries (hf : s.fields = some fields) (hd : FieldsDistinct fields)
    (name : String) : s.position name = .ok place ↔ fields[place].names.Carries name := by
  rw [s.position_eq_ok_iff fields hf hd, List.getElem?_eq_getElem hp]
  simp only [Option.some.injEq, exists_eq_left']

theorem getField_eq_ok_iff_carries (hf : s.fields = some fields) (hd : FieldsDistinct fields)
    (name : String) : s.getField name = .ok fields[place] ↔ fields[place].names.Carries name := by
  rw [s.getField_eq_ok_iff fields hf hd]
  constructor
  · rintro ⟨_, _, hc⟩
    exact hc
  · exact fun hc => ⟨place, List.getElem?_eq_getElem hp, hc⟩

end StructType

namespace Registry

/-- The registry after a step, which may fail. -/
def proceed (r : Registry) : Step → Registry
  | .assign i fields =>
    match r.setFields i fields with
    | .ok r' => r'
    | .error _ => r
  | .change c => r.after c

/-- The registry after one step and the other. -/
def run (r : Registry) (steps : List Step) : Registry :=
  steps.foldl proceed r

/-- A struct of the first registry that has fields has them in the second too, under whatever
    headings. -/
def Settled (r r' : Registry) : Prop :=
  ∀ i bodies, (r.struct i).body = some bodies → (r'.struct i).body = some bodies

section

variable (r r' r'' : Registry)

theorem settled_of_skeleton (h : r'.skeleton = r.skeleton) : Settled r r' := by
  intro i bodies hb
  rwa [body_struct, h, ← body_struct]

/-- Fields are assigned only where there are none. -/
theorem settled_setFields (i : Nat) (fields : List Field) (h : r.setFields i fields = .ok r') :
    Settled r r' := by
  rcases (r.setFields_eq_ok_iff r' i fields).mp h with ⟨hnone, _, _, rfl⟩
  intro j bodies hb
  -- The struct with fields is another one, for this one had none.
  have hj : j ≠ i := by
    rintro rfl
    rw [StructType.body, hnone] at hb
    cases hb
  rwa [r.struct_setStruct_other i j _ hj]

theorem settled_proceed (step : Step) : Settled r (r.proceed step) := by
  cases step with
  | assign i fields =>
      rw [proceed]
      rcases h : r.setFields i fields with e | r'
      · exact fun _ _ hb => hb
      · exact r.settled_setFields r' i fields h
  | change c => exact r.settled_of_skeleton _ (r.skeleton_after c)

/-- Fields once assigned stay. -/
theorem settled_run (steps : List Step) : Settled r (r.run steps) := by
  induction steps generalizing r with
  | nil => exact fun _ _ hb => hb
  | cons step rest ih =>
      intro i bodies hb
      exact ih (r.proceed step) i bodies (r.settled_proceed step i bodies hb)

theorem Built.proceed (step : Step) (hr : r.Built) : (r.proceed step).Built := by
  cases step with
  | assign i fields =>
      rw [Registry.proceed]
      rcases h : r.setFields i fields with e | r'
      · exact hr
      · exact .setFields i fields hr h
  | change c => exact hr.after r c

theorem Built.run (steps : List Step) (hr : r.Built) : (r.run steps).Built := by
  induction steps generalizing r with
  | nil => exact hr
  | cons step rest ih => exact ih (r.proceed step) (hr.proceed r step)

/-- Fields can be assigned once, if no other struct has stamped them and they share no name. -/
theorem exists_setFields_iff (i : Nat) (fields : List Field) :
    (∃ r', r.setFields i fields = .ok r') ↔
      (r.struct i).fields = none ∧ (∀ field ∈ fields, ∀ o ∈ field.owner, o = r.owner i) ∧
        ∀ j k (hj : j < fields.length) (hk : k < fields.length) name,
          fields[j].names.Carries name → fields[k].names.Carries name → j = k := by
  rw [← fieldsDistinct_iff]
  constructor
  · rintro ⟨r', h⟩
    rcases (r.setFields_eq_ok_iff r' i fields).mp h with ⟨hnone, howner, hd, _⟩
    exact ⟨hnone, howner, hd⟩
  · rintro ⟨hnone, howner, hd⟩
    exact ⟨_, (r.setFields_eq_ok_iff _ i fields).mpr ⟨hnone, howner, hd, rfl⟩⟩

/-- After any run of assignments and changes in a registry there can be: what was assigned before
    is there, each field is found under its names and no others, the indexes that are kept say the
    same, fields can be assigned exactly where there are none, if they bear no other stamp and
    share no name, and what fails leaves everything as it was. -/
theorem field_lists_kept (hr : r.Built) (steps : List Step) :
    (∀ i fields, (r.struct i).fields = some fields →
      ∃ fields', ((r.run steps).struct i).fields = some fields' ∧
        fields'.map Field.body = fields.map Field.body) ∧
    (∀ i fields, ((r.run steps).struct i).fields = some fields →
      (∀ place (hp : place < fields.length) name,
        (((r.run steps).struct i).getField name = .ok fields[place] ↔
          fields[place].names.Carries name) ∧
        (((r.run steps).struct i).position name = .ok place ↔
          fields[place].names.Carries name)) ∧
      ∀ j k (hj : j < fields.length) (hk : k < fields.length) name,
        fields[j].names.Carries name → fields[k].names.Carries name → j = k) ∧
    ((∃ indexes, FieldsIndexed (r.run steps) indexes) ∧
      ∀ indexes, FieldsIndexed (r.run steps) indexes → ∀ i fields,
        ((r.run steps).struct i).fields = some fields →
          indexes i = StructType.fieldIndex? fields) ∧
    (∀ i fields, (∃ r', (r.run steps).setFields i fields = .ok r') ↔
      ((r.run steps).struct i).fields = none ∧
        (∀ field ∈ fields, ∀ o ∈ field.owner, o = (r.run steps).owner i) ∧
        ∀ j k (hj : j < fields.length) (hk : k < fields.length) name,
          fields[j].names.Carries name → fields[k].names.Carries name → j = k) ∧
    (∀ i fields r', (r.run steps).Holds (.struct i) → (r.run steps).setFields i fields = .ok r' →
      (r'.struct i).fields = some (fields.map (·.stamp ((r.run steps).owner i)))) ∧
    ∀ w label, w.registries.lookup label = some (r.run steps) →
      (∀ i fields e, (r.run steps).setFields i fields = .error e →
        Working.update label (·.setFields i fields) w = .error e w) ∧
      ∀ i field name e, (r.run steps).renameField i field name = .error e →
        Working.update label (·.renameField i field name) w = .error e w := by
  have hbuilt := hr.run r steps
  refine ⟨?_, ?_, ⟨hbuilt.exists_fieldsIndexed, ?_⟩, exists_setFields_iff _, ?_, ?_⟩
  · -- Fields that are settled are there under the same bodies.
    intro i fields hf
    have hbody := r.settled_run steps i (fields.map Field.body) (by
      rw [StructType.body, hf, Option.map_some])
    rw [StructType.body, Option.map_eq_some_iff] at hbody
    exact hbody
  · intro i fields hf
    have hd := hbuilt.tidy.fields i fields hf
    refine ⟨fun place hp name => ?_, (fieldsDistinct_iff fields).mp hd⟩
    exact ⟨StructType.getField_eq_ok_iff_carries _ fields place hp hf hd name,
      StructType.position_eq_ok_iff_carries _ fields place hp hf hd name⟩
  · intro indexes hindexes i fields hf
    exact (hindexes.exact _ indexes i fields hf).eq_fieldIndex? (indexes i) fields
  · intro i fields r' hi h
    rcases ((r.run steps).setFields_eq_ok_iff r' i fields).mp h with ⟨_, _, _, rfl⟩
    rw [struct_setStruct_self _ i _ hi]
  · intro w label hl
    exact ⟨fun i fields e h => Working.update_of_error w label _ _ e hl h,
      fun i field name e h => Working.update_of_error w label _ _ e hl h⟩

end

end Registry

namespace Sample

/-- The price of an item is renamed, and then the colour tries to take the name that is now an
    alias of the price. -/
def repricing : List Step :=
  [.change (.renameField 0 "price" "cost"), .change (.renameField 0 "colour" "price")]

end Sample

open Sample

theorem field_lists_kept_items : ∃ fields, ((items.run repricing).struct 0).fields = some fields ∧
    fields.map Field.body = (itemFields.map (·.stamp ⟨0, 0⟩)).map Field.body ∧
    ((items.run repricing).struct 0).position "cost" = .ok 0 ∧
    ((items.run repricing).struct 0).position "price" = .ok 0 ∧
    ¬ ∃ r', (items.run repricing).setFields 0 [] = .ok r' := by
  have hkept := Registry.field_lists_kept items items_built repricing
  rcases hkept.1 0 _ rfl with ⟨fields, hf, hbody⟩
  -- The names are evaluated after the changes. What is
  -- found under them follows from the general statement.
  have hnames : ((items.run repricing).struct 0).fields.map (·.map (·.names.all))
      = some [["cost", "price"], ["colour"], ["tags"], ["next"]] := by decide
  rw [hf, Option.map_some, Option.some.injEq] at hnames
  have hlength : 0 < fields.length := by
    have h := congrArg List.length hnames
    rw [List.length_map] at h
    rw [h]
    decide
  have hall : fields[0].names.all = ["cost", "price"] := by
    rw [← List.getElem_map (fun field : Field => field.names.all) (h := by rwa [List.length_map])]
    simp only [hnames, List.getElem_cons_zero]
  have hposition := fun name => ((hkept.2.1 0 fields hf).1 0 hlength name).2
  refine ⟨fields, hf, hbody, ?_, ?_, fun hset => ?_⟩
  · rw [hposition, Names.Carries, hall]
    decide
  · rw [hposition, Names.Carries, hall]
    decide
  · have hnone := ((hkept.2.2.2.1 0 []).mp hset).1
    rw [hf] at hnone
    exact nomatch hnone

end Schemata
