import Mathlib.Data.List.Induction
import Schemata.Proofs.Settings.Overlays
import Schemata.Settings.Basic

/-!
# What Sources Give

What the entries of all sources give to a section and to its settings, without
laying one over the other.

An entry gives a section some of its settings by name, or it gives the section as
something else than a table: as a value, or by one item of a list. What has been
given by name is kept as a list of names and values with the latest in front
(`Given`), and it is lost when the section is given as something else. Nothing is
merged in this: a setting is what stands first under its name.

The table that is computed has the same (`Given.holds_run`). Each assignment is
looked at once, section by section, and the rest is an induction over the entries.

## Main definitions

* `Entry.contribution`: What an entry gives to a section.
* `Given`, `given`: What some entries give to a section.
* `Given.Holds`: A table has what was given.
* `ByName`: Some entries give a section by the names of its settings only.
* `Given.Sets`: A setting has the value that was given.

## Theorems

* `Given.holds_after`, `Given.holds_run`: A table has what the entries give.
* `lookup_given_flatten`: The last source that sets a setting decides.
* `Given.sets_of_setting`: A setting is what was given.
-/

namespace Schemata

namespace Settings

open Setting (Members Shows Covered Tidy speaking)

/-! ### What entries give -/

/-- What an entry gives to a section. -/
inductive Contribution where
  /-- The entry is of another section, or it is an empty table. -/
  | nothing
  /-- Some settings by their names. -/
  | named (settings : Members)
  /-- The section as a value that is no table. -/
  | whole (value : Setting)
  /-- An item of the section, as a list. -/
  | item

/-- What an entry gives to a section. Values that are empty tables are left out. -/
def Entry.contribution (title : String) (entry : Entry) : Contribution :=
  if entry.path.first = title then
    match entry.path.steps, entry.value with
    | [], .table [] => .nothing
    | [], .table members => .named (speaking members)
    | [], value => .whole value
    | .key name :: steps, value => .named (speaking [(name, Path.under value steps)])
    | .index _ :: _, _ => .item
  else .nothing

/-- What has been given to a section. -/
inductive Given where
  | nothing
  /-- Settings by their names, the latest in front. -/
  | named (settings : Members)
  /-- A value that is no table. -/
  | whole (value : Setting)
  /-- Items of a list. -/
  | items

namespace Given

/-- The settings that were given by name since the section was last given otherwise, the latest in
    front. -/
def settings : Given → Members
  | .named settings => settings
  | _ => []

/-- What has been given after a contribution. -/
def after (given : Given) : Contribution → Given
  | .nothing => given
  | .named settings => .named (settings.reverse ++ given.settings)
  | .whole value => .whole value
  | .item => .items

/-- What has been given after some entries. -/
def run (title : String) (given : Given) (entries : List Entry) : Given :=
  entries.foldl (fun given entry => given.after (entry.contribution title)) given

end Given

/-- What some entries give to a section. -/
def given (title : String) (entries : List Entry) : Given :=
  Given.nothing.run title entries

/-! ### What a table has -/

/-- The keys of a table are distinct, and those of the tables in it as well. -/
def Entry.Tidy (entry : Entry) : Prop :=
  entry.value.Tidy ∧ ∀ members, entry.value = .table members → ∀ member ∈ members, member.2.Tidy

namespace Given

/-- A section of a table is what was given. -/
def Holds (held : Option Setting) : Given → Prop
  | .nothing => held = none ∨ held = some (.table [])
  | .named settings => ∃ members, held = some (.table members) ∧
      ∀ name, Shows (members.lookup name) (settings.lookup name)
  | .whole value => held = some value ∧ ∀ members, value ≠ .table members
  | .items => ∃ items, held = some (.list items)

/-- What is not a table has no members. -/
theorem membersOf_eq_nil (value : Setting) (h : ∀ members, value ≠ .table members) :
    value.membersOf = [] := by
  cases value with
  | table members => exact absurd rfl (h members)
  | _ => rfl

/-- Whatever was given, the members that are there show the settings of it. -/
theorem shows_membersOf (given : Given) (held : Option Setting) (h : given.Holds held)
    (default : Setting) (hdefault : default.membersOf = []) (name : String) :
    Shows ((held.getD default).membersOf.lookup name) (given.settings.lookup name) := by
  -- A section that was not given by names shows no member, whatever it holds.
  cases given with
  | nothing =>
      rcases h with rfl | rfl
      · rw [Option.getD_none, hdefault]
        exact Or.inl rfl
      · exact Or.inl rfl
  | named settings =>
      rcases h with ⟨members, rfl, hshows⟩
      exact hshows name
  | whole value =>
      rcases h with ⟨rfl, hvalue⟩
      rw [Option.getD_some, membersOf_eq_nil value hvalue]
      exact Or.inl rfl
  | items =>
      rcases h with ⟨items, rfl⟩
      exact Or.inl rfl

theorem holds_named (given : Given) (members settings : Members)
    (h : ∀ name, Shows (members.lookup name) ((settings.reverse ++ given.settings).lookup name)) :
    (given.after (.named settings)).Holds (some (.table members)) :=
  ⟨members, rfl, h⟩

/-- A table laid over a section gives settings by their names. -/
theorem holds_after_table (given : Given) (held : Option Setting) (h : given.Holds held)
    (members : Members) (hne : members ≠ []) (htidy : ∀ member ∈ members, member.2.Tidy) :
    (given.after (.named (speaking members))).Holds
      (some (Path.overlay held (.table members))) := by
  rw [Path.overlay_table held members hne]
  exact given.holds_named _ _ fun name =>
    Path.shows_laidOver members _ _ htidy (given.shows_membersOf held h _ rfl) name

theorem holds_after_key (given : Given) (held : Option Setting) (h : given.Holds held)
    (name : String) (steps : List Step) (value new : Setting) (htidy : value.Tidy)
    (hnew : Path.assignSteps value (.key name :: steps) (held.getD .nothing) = .ok new) :
    (given.after (.named (speaking [(name, Path.under value steps)]))).Holds (some new) := by
  have hshows := given.shows_membersOf held h .nothing rfl
  -- There is at most one setting in it, so its order does not matter.
  have horder : (speaking [(name, Path.under value steps)]).reverse =
      speaking [(name, Path.under value steps)] := by
    rw [speaking, List.filter_cons]
    split
    · rfl
    · rfl
  -- The name itself is set, or something below it.
  cases steps with
  | nil =>
      cases hnew
      refine given.holds_named _ _ fun other => ?_
      rw [horder]
      exact Path.shows_put _ _ hshows name value htidy other
  | cons step steps =>
      rw [Path.assignSteps] at hnew
      · rcases bind_eq_ok_iff.mp hnew with ⟨inner, hinner, hput⟩
        cases hput
        refine given.holds_named _ _ fun other => ?_
        have hempty : (Path.under value (step :: steps)).isEmptyTable = false := by
          cases step <;> rfl
        rw [horder, Path.lookup_speaking, hempty, if_neg Bool.false_ne_true,
          Entries.lookup_put]
        split_ifs
        · exact ⟨inner, rfl, Path.covered_assignSteps hinner⟩
        · exact hshows other
      · exact List.cons_ne_nil _ _

theorem holds_after_value (given : Given) (held : Option Setting) (value : Setting)
    (h : ∀ members, value ≠ .table members) :
    (given.after (.whole value)).Holds (some (Path.overlay held value)) := by
  refine ⟨?_, h⟩
  cases value with
  | table members => exact absurd rfl (h members)
  | _ => rfl

theorem holds_after_item (given : Given) (position : Int) (steps : List Step)
    (value old new : Setting)
    (h : Path.assignSteps value (.index position :: steps) old = .ok new) :
    (given.after .item).Holds (some new) := by
  have hcovered := Path.covered_assignSteps h
  cases hcovered with
  | same => exact ⟨_, rfl⟩
  | list _ items => exact ⟨items, rfl⟩

/-- An empty table leaves the section as it is, or makes it an empty one. -/
theorem holds_emptyTable (given : Given) (held : Option Setting) (h : given.Holds held) :
    given.Holds (some (Path.overlay held (.table []))) := by
  rw [Path.overlay_emptyTable]
  cases held with
  | none =>
      cases given with
      | nothing => exact Or.inr rfl
      | named _ => exact absurd h fun ⟨_, hnone, _⟩ => nomatch hnone
      | whole _ => exact nomatch h.1
      | items => exact absurd h fun ⟨_, hnone⟩ => nomatch hnone
  | some value => exact h

/-- An assignment gives a table what its entry gives. -/
theorem holds_after (given : Given) (title : String) (entry : Entry) (htidy : entry.Tidy)
    (table table' : Members) (h : entry.path.assign entry.value table = .ok table')
    (hgiven : given.Holds (table.lookup title)) :
    (given.after (entry.contribution title)).Holds (table'.lookup title) := by
  rcases entry with ⟨⟨first, steps⟩, value⟩
  rcases Path.exists_put_of_assign h with ⟨new, rfl, hnew⟩
  rw [Entries.lookup_put, Entry.contribution]
  by_cases hfirst : first = title
  · rw [if_pos hfirst, if_pos hfirst.symm]
    simp only [hfirst] at hnew
    rcases hnew with ⟨rfl, rfl⟩ | ⟨hsteps, hnew⟩
    · cases value with
      | table members =>
          cases members with
          | nil => exact given.holds_emptyTable _ hgiven
          | cons member rest =>
              exact given.holds_after_table _ hgiven _ (List.cons_ne_nil _ _) (htidy.2 _ rfl)
      | _ => exact given.holds_after_value _ _ nofun
    · cases steps with
      | nil => exact absurd rfl hsteps
      | cons step steps =>
          cases step with
          | key name => exact given.holds_after_key _ hgiven name steps value new htidy.1 hnew
          | index position => exact given.holds_after_item position steps value _ new hnew
  · -- The entry is of another section.
    rw [if_neg hfirst, if_neg (Ne.symm hfirst)]
    exact hgiven

/-- A table has what all of its entries give. -/
theorem holds_run (title : String) (entries : List Entry) (htidy : ∀ entry ∈ entries, entry.Tidy)
    (given : Given) (table table' : Members) (h : lay table entries = .ok table')
    (hgiven : given.Holds (table.lookup title)) :
    (given.run title entries).Holds (table'.lookup title) := by
  induction entries generalizing given table with
  | nil =>
      cases h
      exact hgiven
  | cons entry entries ih =>
      rw [List.forall_mem_cons] at htidy
      rcases bind_eq_ok_iff.mp h with ⟨next, hnext, hrest⟩
      exact ih htidy.2 _ next hrest (given.holds_after title entry htidy.1 table next hnext hgiven)

end Given

/-! ### The last source -/

/-- The section is given by names, if at all. -/
def Contribution.isByName : Contribution → Bool
  | .nothing | .named _ => true
  | .whole _ | .item => false

/-- The entries give the section by the names of its settings only. -/
def ByName (title : String) (entries : List Entry) : Prop :=
  ∀ entry ∈ entries, (entry.contribution title).isByName = true

theorem Given.settings_after (given : Given) (contribution : Contribution)
    (h : contribution.isByName = true) : (given.after contribution).settings =
      (Given.nothing.after contribution).settings ++ given.settings := by
  cases contribution with
  | nothing => rfl
  | named settings => exact (List.append_assoc settings.reverse [] given.settings).symm
  | whole value => exact absurd h Bool.false_ne_true
  | item => exact absurd h Bool.false_ne_true

/-- What is given by name is in front of what was given before, and takes nothing of it away. -/
theorem Given.settings_run (title : String) (entries : List Entry) (h : ByName title entries)
    (before : Given) : (before.run title entries).settings =
      (given title entries).settings ++ before.settings := by
  induction entries generalizing before with
  | nil => rfl
  | cons entry entries ih =>
      rw [ByName, List.forall_mem_cons] at h
      rw [given, Given.run, Given.run, List.foldl_cons, List.foldl_cons, ← Given.run, ← Given.run,
        ih h.2, ih h.2 (Given.nothing.after _), before.settings_after _ h.1, List.append_assoc]

theorem given_append (title : String) (earlier later : List Entry) :
    given title (earlier ++ later) = (given title earlier).run title later :=
  List.foldl_append

/-- Of some sources that give a section by name, the last that sets a setting decides; if none of
    them does, it is what it was before them. -/
theorem lookup_given_flatten (title name : String) (earlier : List Entry)
    (later : List (List Entry)) (h : ∀ source ∈ later, ByName title source) :
    (given title (earlier ++ later.flatten)).settings.lookup name =
      (later.reverse.findSome? fun source => (given title source).settings.lookup name).or
        ((given title earlier).settings.lookup name) := by
  -- From behind, since the last source is the first that is asked.
  induction later using List.reverseRecOn with
  | nil =>
      rw [List.flatten_nil, List.append_nil, List.reverse_nil, List.findSome?_nil, Option.none_or]
  | append_singleton sources source ih =>
      rw [List.forall_mem_append, List.forall_mem_singleton] at h
      rw [List.flatten_append, List.flatten_singleton, ← List.append_assoc, given_append,
        Given.settings_run title source h.2, List.lookup_append, ih h.1, List.reverse_append,
        List.reverse_singleton, List.singleton_append, List.findSome?_cons]
      cases (given title source).settings.lookup name with
      | none => rw [Option.none_or]
      | some value => rfl

/-! ### Reading what was given -/

section

variable {α : Type} (read : Setting → Option α) (fallback value : α)

/-- The value is what a setting says, or the default if there is none. -/
def Says : Option Setting → Prop
  | none => value = fallback
  | some setting => read setting = some value

/-- A setting has the value that was given: by its name, or by its position if the section is a
    list in the end. -/
def Given.Sets (held : Option Setting) (position : Nat) (name : String) : Given → Prop
  | .whole kept => ∃ items, kept = .list items ∧ Says read fallback value items[position]?
  | .items => ∃ items, held = some (.list items) ∧ Says read fallback value items[position]?
  | given => Says read fallback value (given.settings.lookup name)

/-- Of what was laid, a reader understands no more than it does of the last value. -/
structure ReadsPlainly : Prop where
  emptyTable : read (.table []) = none
  covered : ∀ last held, Covered last held → ∀ a, read held = some a → read last = some a

theorem readsPlainly_of_none (htable : ∀ members, read (.table members) = none)
    (hlist : ∀ items, read (.list items) = none) : ReadsPlainly read where
  emptyTable := htable []
  covered := by
    intro last held hcovered a ha
    cases hcovered with
    | same => exact ha
    | table members held => exact nomatch (htable held).symm.trans ha
    | list items held => exact nomatch (hlist held).symm.trans ha

theorem readsPlainly_asBool? : ReadsPlainly asBool? :=
  readsPlainly_of_none _ (fun _ => rfl) fun _ => rfl

theorem readsPlainly_asNat? : ReadsPlainly asNat? :=
  readsPlainly_of_none _ (fun _ => rfl) fun _ => rfl

theorem readsPlainly_asText? : ReadsPlainly asText? :=
  readsPlainly_of_none _ (fun _ => rfl) fun _ => rfl

/-- A table with a single key is that of the last value, as no key is lost. -/
theorem readsPlainly_asFormat? : ReadsPlainly asFormat? where
  emptyTable := rfl
  covered := by
    intro last held hcovered a ha
    cases hcovered with
    | same => exact ha
    | table members held hne hnodup hkeys =>
        match held with
        | [] => exact nomatch ha
        | [(key, _)] =>
            -- All members are under the key of the table
            -- that was held, and no two are under one key.
            match members with
            | [] => exact absurd rfl hne
            | [(name, _)] =>
                have hkey : name = key := List.mem_singleton.mp (hkeys _ List.mem_cons_self)
                rw [hkey]
                exact ha
            | (name, _) :: (name', _) :: rest =>
                have hname : name = key := List.mem_singleton.mp (hkeys _ List.mem_cons_self)
                have hname' : name' = key := List.mem_singleton.mp
                  (hkeys _ (List.mem_cons_of_mem _ List.mem_cons_self))
                rw [List.map_cons, List.nodup_cons] at hnodup
                exact absurd (hname.trans hname'.symm ▸ List.mem_cons_self) hnodup.1
        | _ :: _ :: _ => exact nomatch ha
    | list items held => exact nomatch ha

variable {read fallback value}

/-- What a reader makes of a place is what it makes of the last value that was laid there. -/
theorem says_of_shows (hread : ReadsPlainly read) (held last : Option Setting)
    (hshows : Shows held last) (h : Says read fallback value held) :
    Says read fallback value last := by
  cases last with
  | none =>
      rcases hshows with rfl | rfl
      · exact h
      · exact nomatch hread.emptyTable.symm.trans h
  | some setting =>
      rcases hshows with ⟨w, rfl, hcovered⟩
      exact hread.covered setting w hcovered value h

theorem setting_eq_ok_iff (values : Members) (name : String) (fault : String → Fault) :
    setting values name fault read fallback = .ok value ↔
      Says read fallback value (values.lookup name) := by
  rw [setting]
  cases values.lookup name with
  | none => exact ⟨fun h => (Except.ok.inj h).symm, fun h => congrArg Except.ok h.symm⟩
  | some setting =>
      rw [Says]
      dsimp only
      cases read setting with
      | none => exact ⟨nofun, nofun⟩
      | some a =>
          exact ⟨fun h => congrArg some (Except.ok.inj h),
            fun h => congrArg Except.ok (Option.some.inj h)⟩

theorem lookup_zip (names : List String) (items : List Setting) (position : Nat) (name : String)
    (hnodup : names.Nodup) (hname : names[position]? = some name) :
    (names.zip items).lookup name = items[position]? := by
  induction names generalizing items position with
  | nil => exact nomatch hname
  | cons first rest ih =>
      rw [List.nodup_cons] at hnodup
      cases items with
      | nil => rfl
      | cons item items =>
          rw [List.zip_cons_cons, Entries.lookup_cons]
          cases position with
          | zero =>
              rw [if_pos (Option.some.inj hname).symm]
              rfl
          | succ position =>
              -- A name behind the first is another name.
              have hmem : name ∈ rest := List.mem_of_getElem? hname
              have hne : name ≠ first := fun heq => hnodup.1 (heq ▸ hmem)
              rw [if_neg hne]
              exact ih items position hnodup.2 hname

/-- A section that is read is a list, whose items have names by their position, or it is absent or
    a table. -/
theorem cases_of_readSection (table values : Members) (title : String) (names : List String)
    (h : readSection table title names = .ok values) :
    (∃ items, table.lookup title = some (.list items) ∧ values = names.zip items) ∨
      (∀ held ∈ table.lookup title, ∃ members, held = .table members) ∧
        values = ((table.lookup title).getD .nothing).membersOf := by
  rw [readSection] at h
  -- A section is absent, a table or a list. A single value in its place is refused.
  split at h
  · next hnone =>
      cases h
      rw [hnone]
      exact Or.inr ⟨nofun, rfl⟩
  · next members hmembers =>
      cases h
      rw [hmembers]
      exact Or.inr ⟨fun held hheld => ⟨_, (Option.some.inj hheld).symm⟩, rfl⟩
  · next items hitems =>
      cases h
      exact Or.inl ⟨items, hitems, rfl⟩
  · cases h

/-- A setting of a section is what was given. -/
theorem Given.sets_of_setting (hread : ReadsPlainly read) {given : Given} (table values : Members)
    {title name : String} {names : List String} (position : Nat) {fault : String → Fault}
    (hgiven : given.Holds (table.lookup title)) (hnodup : names.Nodup)
    (hname : names[position]? = some name) (hsection : readSection table title names = .ok values)
    (hsetting : setting values name fault read fallback = .ok value) :
    given.Sets read fallback value (table.lookup title) position name := by
  rw [setting_eq_ok_iff] at hsetting
  rcases cases_of_readSection table values title names hsection with
    ⟨items, hitems, rfl⟩ | ⟨htable, rfl⟩
  · rw [lookup_zip names items position name hnodup hname] at hsetting
    rw [hitems] at hgiven ⊢
    cases given with
    | nothing => exact nomatch hgiven
    | named settings => exact absurd hgiven fun ⟨_, hlist, _⟩ => nomatch hlist
    | whole kept => exact ⟨items, (Option.some.inj hgiven.1).symm, hsetting⟩
    | items => exact ⟨items, rfl, hsetting⟩
  · have hshows := given.shows_membersOf _ hgiven .nothing rfl name
    have hsays := says_of_shows hread _ _ hshows hsetting
    -- Without a list nothing else than names can have been given.
    cases given with
    | nothing => exact hsays
    | named settings => exact hsays
    | whole kept =>
        rcases htable kept hgiven.1 with ⟨members, hmembers⟩
        exact absurd hmembers (hgiven.2 members)
    | items =>
        rcases hgiven with ⟨items, hitems⟩
        rcases htable _ hitems with ⟨members, hmembers⟩
        exact nomatch hmembers

end

end Settings

end Schemata
