import Schemata.Proofs.Entries
import Schemata.Proofs.Registry.Lookup
import Schemata.Settings.Layer

/-!
# Values Laid over Each Other

What a table of settings has in a place after a value was assigned to a path.

A value that is no table replaces what is there. A table is laid member by member
over the members that are there, of which there are none unless a table is there.
So what a place has in the end is the last value that was laid there, except that
tables collect the keys of all of them. An empty table leaves everything as it is.

The places behind a setting do not matter in themselves: no setting is a list, and
the only tables that say one have a single key. Therefore it is enough to know of a
table that it has the keys of the value that was laid last (`Setting.Covered`).

## Main definitions

* `Setting.Covered`: A value that was laid is what a place has, up to the keys of
  tables.
* `Setting.Shows`: What a place has, after the values that were laid there.
* `Settings.Path.under`: A value with the steps of a path around it.
* `Settings.Path.laidOver`: Members with some others laid over them.

## Theorems

* `Settings.Path.overlay_table`: A table is laid member by member.
* `Settings.Path.shows_overlay`, `Settings.Path.shows_laidOver`: What places have after a
  value, or members, were laid there.
* `Settings.Path.covered_assignSteps`: A value at the end of some steps.
* `Settings.Path.exists_put_of_assign`: An assignment puts one member.
-/

namespace Schemata

namespace Setting

/-! ### Small letters -/

/-- If the value is a table, its keys are distinct. -/
def Tidy : Setting → Prop
  | .table members => (members.map Prod.fst).Nodup
  | _ => True

theorem nodup_lowerMembers (table members : Members) (h : (table.map Prod.fst).Nodup) :
    ((lowerMembers table members).map Prod.fst).Nodup := by
  induction members generalizing table with
  | nil => exact h
  | cons member rest ih =>
      rw [lowerMembers]
      exact ih _ (Entries.nodup_keys_put _ _ _ h)

theorem tidy_lowerKeys (value : Setting) : value.lowerKeys.Tidy := by
  cases value with
  | table members => exact nodup_lowerMembers [] members List.nodup_nil
  | _ => trivial

/-- The values of a table in small letters are in small letters. -/
theorem exists_lowerKeys (table members : Members)
    (htable : ∀ member ∈ table, ∃ value : Setting, member.2 = value.lowerKeys) :
    ∀ member ∈ lowerMembers table members, ∃ value : Setting, member.2 = value.lowerKeys := by
  induction members generalizing table with
  | nil => exact htable
  | cons member rest ih =>
      rw [lowerMembers]
      refine ih _ fun other hother => ?_
      rcases Entries.mem_put _ _ _ hother with rfl | hother
      · exact ⟨_, rfl⟩
      · exact htable other hother

/-! ### Values that were laid -/

/-- The table has no members. -/
def isEmptyTable : Setting → Bool
  | .table [] => true
  | _ => false

/-- The members that are no empty tables. -/
def speaking (members : Members) : Members :=
  members.filter (!·.2.isEmptyTable)

/-- A value that was laid last is what a place has, where a table has its keys at least and a list
    is any list. -/
inductive Covered : Setting → Setting → Prop
  | same (value : Setting) : Covered value value
  | table (members held : Members) (hne : members ≠ []) (hnodup : (members.map Prod.fst).Nodup)
      (hkeys : ∀ member ∈ members, member.1 ∈ held.map Prod.fst) :
      Covered (.table members) (.table held)
  | list (items held : List Setting) : Covered (.list items) (.list held)

/-- What a place has after some values were laid there, of which the last is given. Without one
    there were empty tables at most. -/
def Shows (held : Option Setting) : Option Setting → Prop
  | none => held = none ∨ held = some (.table [])
  | some value => ∃ w, held = some w ∧ Covered value w

end Setting

namespace Settings

namespace Path

open Setting

/-! ### Overlays -/

/-- Members with some others laid over them, one after the other. -/
def laidOver (held members : Members) : Members :=
  members.foldl
    (fun held member => Entries.put member.1 (overlay (held.lookup member.1) member.2) held) held

theorem overlayMembers_eq (old : Setting) (members : Members) (hne : members ≠ []) :
    overlayMembers old members = .table (laidOver old.membersOf members) := by
  induction members generalizing old with
  | nil => exact absurd rfl hne
  | cons member rest ih =>
      rw [overlayMembers]
      by_cases hrest : rest = []
      · rw [hrest]
        rfl
      · rw [ih _ hrest]
        rfl

/-- A table is laid member by member. -/
theorem overlay_table (held : Option Setting) (members : Members) (hne : members ≠ []) :
    overlay held (.table members) =
      .table (laidOver (held.getD (.table [])).membersOf members) := by
  rw [overlay, overlayMembers_eq _ _ hne]

theorem overlay_emptyTable (held : Option Setting) :
    overlay held (.table []) = held.getD (.table []) := by
  rw [overlay, overlayMembers]

theorem mem_keys_laidOver (held members : Members) (key : String) :
    key ∈ (laidOver held members).map Prod.fst ↔
      key ∈ held.map Prod.fst ∨ key ∈ members.map Prod.fst := by
  induction members generalizing held with
  | nil => simp only [laidOver, List.foldl_nil, List.map_nil, List.not_mem_nil, or_false]
  | cons member rest ih =>
      rw [laidOver, List.foldl_cons, ← laidOver, ih, Entries.mem_keys_put, List.map_cons,
        List.mem_cons]
      tauto

/-- A value laid over a place is the last one there, unless it is an empty table. -/
theorem shows_overlay (held last : Option Setting) (value : Setting) (h : Shows held last)
    (htidy : value.Tidy) : Shows (some (overlay held value))
      (if value.isEmptyTable then last else some value) := by
  cases value with
  | table members =>
      by_cases hne : members = []
      · -- An empty table changes nothing but a place where nothing was.
        rw [hne, overlay_emptyTable]
        cases last with
        | none =>
            refine Or.inr ?_
            rcases h with rfl | rfl
            · rfl
            · rfl
        | some value =>
            rcases h with ⟨w, rfl, hw⟩
            exact ⟨w, rfl, hw⟩
      · have hspeaks : (Setting.table members).isEmptyTable = false := by
          cases members with
          | nil => exact absurd rfl hne
          | cons _ _ => rfl
        rw [hspeaks, overlay_table _ _ hne]
        refine ⟨_, rfl, .table _ _ hne htidy fun member hm => ?_⟩
        rw [mem_keys_laidOver]
        exact Or.inr (List.mem_map_of_mem hm)
  | _ => exact ⟨_, rfl, .same _⟩

theorem lookup_speaking (key name : String) (value : Setting) (settings : Members) :
    (speaking [(key, value)] ++ settings).lookup name =
      if name = key then if value.isEmptyTable then settings.lookup key else some value
      else settings.lookup name := by
  -- Empty tables are not among the members that speak.
  cases hempty : value.isEmptyTable with
  | true =>
      have hnone : speaking [(key, value)] = [] := by
        rw [speaking, List.filter_cons_of_neg (by
          simp only [hempty, Bool.not_true, Bool.false_eq_true, not_false_eq_true]),
          List.filter_nil]
      rw [hnone, if_pos rfl]
      split_ifs with hname
      · rw [hname]
        rfl
      · rfl
  | false =>
      have hone : speaking [(key, value)] = [(key, value)] := by
        rw [speaking, List.filter_cons_of_pos (by simp only [hempty, Bool.not_false]),
          List.filter_nil]
      rw [hone, if_neg Bool.false_ne_true]
      exact Entries.lookup_cons key name value settings

/-- A member laid over others is the last one there, unless it is an empty table. -/
theorem shows_put (held settings : Members)
    (h : ∀ name, Shows (held.lookup name) (settings.lookup name)) (key : String) (value : Setting)
    (htidy : value.Tidy) (name : String) :
    Shows ((Entries.put key (overlay (held.lookup key) value) held).lookup name)
      ((speaking [(key, value)] ++ settings).lookup name) := by
  rw [Entries.lookup_put, lookup_speaking]
  split_ifs with hname hempty
  · have hover := shows_overlay _ _ value (h key) htidy
    rwa [if_pos hempty] at hover
  · have hover := shows_overlay _ _ value (h key) htidy
    rwa [if_neg hempty] at hover
  · exact h name

/-- Members laid over others are the last ones there, in the order that they have. -/
theorem shows_laidOver (members held settings : Members)
    (htidy : ∀ member ∈ members, member.2.Tidy)
    (h : ∀ name, Shows (held.lookup name) (settings.lookup name)) (name : String) :
    Shows ((laidOver held members).lookup name)
      (((speaking members).reverse ++ settings).lookup name) := by
  -- On the members, which are laid over one by one. The last one stands first in the order of what
  -- is looked up.
  induction members generalizing held settings with
  | nil => exact h name
  | cons member rest ih =>
      rw [List.forall_mem_cons] at htidy
      have hrest := ih _ (speaking [member] ++ settings) htidy.2
        (shows_put held settings h member.1 member.2 htidy.1)
      have horder : (speaking (member :: rest)).reverse =
          (speaking rest).reverse ++ speaking [member] := by
        simp only [speaking, List.filter_cons, List.filter_nil]
        split
        · exact List.reverse_cons
        · exact (List.append_nil _).symm
      rw [horder, List.append_assoc]
      exact hrest

/-! ### Assignments -/

/-- A value with the steps of a path around it. -/
def under (value : Setting) : List Step → Setting
  | [] => value
  | .key name :: steps => .table [(name, under value steps)]
  | .index _ :: steps => .list [under value steps]

theorem covered_put (name : String) (value new : Setting) (members : Members) :
    Covered (.table [(name, value)]) (.table (Entries.put name new members)) := by
  refine .table _ _ (List.cons_ne_nil _ _) (List.nodup_singleton name) fun member hm => ?_
  rw [List.mem_singleton.mp hm, Entries.mem_keys_put]
  exact Or.inl rfl

/-- At the end of some steps there is the value with the steps around it. -/
theorem covered_assignSteps {value old new : Setting} {step : Step} {steps : List Step}
    (h : assignSteps value (step :: steps) old = .ok new) :
    Covered (under value (step :: steps)) new := by
  -- A key leads into a table and covers one member of it. An index leads into a list, which covers
  -- nothing further.
  cases step with
  | key name =>
      cases steps with
      | nil =>
          cases h
          exact covered_put name value _ _
      | cons step steps =>
          rw [assignSteps] at h
          · rcases bind_eq_ok_iff.mp h with ⟨inner, _, hnew⟩
            cases hnew
            exact covered_put name _ inner _
          · exact List.cons_ne_nil _ _
  | index position =>
      rw [assignSteps] at h
      simp only [bind_eq_ok_iff] at h
      rcases h with ⟨place, _, inner, _, hnew⟩
      cases hnew
      exact .list _ _

/-- An assignment puts something at the first key of a path: the value laid over what is there, or
    what is there with the value at the end of the further steps. -/
theorem exists_put_of_assign {path : Path} {value : Setting} {table table' : Members}
    (h : path.assign value table = .ok table') : ∃ new, table' = Entries.put path.first new table ∧
      (path.steps = [] ∧ new = overlay (table.lookup path.first) value ∨
        path.steps ≠ [] ∧
          assignSteps value path.steps ((table.lookup path.first).getD .nothing) = .ok new) := by
  rcases path with ⟨first, steps⟩
  cases steps with
  | nil =>
      cases h
      exact ⟨_, rfl, Or.inl ⟨rfl, rfl⟩⟩
  | cons step steps =>
      simp only [assign, assignSteps, bind_eq_ok_iff, pure_eq_ok_iff] at h
      rcases h with ⟨_, ⟨new, hnew, rfl⟩, rfl⟩
      exact ⟨new, rfl, Or.inr ⟨List.cons_ne_nil _ _, hnew⟩⟩

end Path

end Settings

end Schemata
