import Schemata.Proofs.Carriers
import Schemata.Proofs.Registry.Changes
import Schemata.Proofs.Registry.FieldIndex
import Schemata.Proofs.Registry.Paths

/-!
# Old Names

Whatever was found under a name once is found under it for good.

To rename something takes no name away, for the old one becomes an alias. So a
registry that has come about by changes of headings inherits from the one at the
start: it has the same skeleton, and each node carries at least the names that it
carried then (`Registry.Inherits`). That is enough for every lookup to come out
as before. Within a scope a name belongs to one node only, so a node that still
carries it is the one that is found. A path is a series of such lookups, and the
types by which it goes on belong to the skeleton; so it ends at the same place,
however its names have been mixed from old and new.

What a node is called after any number of changes can be read off the names that
were given to it in the meantime (`Registry.targets`). They are all there beside
the old ones, and the last of them is the live name.

## Main definitions

* `Registry.Inherits`: The same skeleton, and no name is lost.
* `Registry.given?`, `Registry.targets`: The names that changes give to a node.

## Theorems

* `Registry.inherits_undergo`: No change loses a name.
* `Registry.Inherits.get`, `Registry.Inherits.locate`: Names and paths stand for
  what they stood for.
* `Registry.exists_heading_undergo`: What a node is called after some changes.
* `Registry.undergo_there_and_back`: To take an alias for the live name can be
  undone.
* `Registry.lineage_kept`: All of this for the registries that there can be.
-/

namespace Schemata

/-- Names are made of the live name and all that are carried. -/
theorem Names.ext_of_carries (a b : Names) (hn : a.name = b.name)
    (hc : ∀ x, a.Carries x ↔ b.Carries x) : a = b := by
  have haliases : a.aliases = b.aliases := by
    -- An alias is a name that is carried and is not the live one.
    have halias : ∀ (names : Names) x, x ∈ names.aliases ↔ names.Carries x ∧ x ≠ names.name := by
      intro names x
      rw [carries_iff]
      constructor
      · intro hx
        refine ⟨Or.inr hx, ?_⟩
        rintro rfl
        exact names.name_not_mem hx
      · exact fun ⟨hx, hne⟩ => hx.resolve_left hne
    refine NameSet.ext _ _ fun x => ?_
    rw [halias a, halias b, hc x, hn]
  cases a
  cases b
  simp only at hn haliases
  simp only [hn, haliases]

namespace Registry

/-- The second registry has the skeleton of the first, and no node has lost a name. -/
structure Inherits (r r' : Registry) : Prop where
  skeleton : r'.skeleton = r.skeleton
  carries : ∀ node name, r.CarriesAt node name → r'.CarriesAt node name

/-- The name that a change gives to a node, if it succeeds. -/
def given? (r : Registry) (c : Change) (node : Node) : Option String :=
  match r.addressed c, r.perform c with
  | .ok target, .ok _ => if target = node then c.revision.newName? else none
  | _, _ => none

/-- The names that some changes give to a node, in order. -/
def targets (r : Registry) (node : Node) : List Change → List String
  | [] => []
  | c :: rest => (r.given? c node).toList ++ (r.after c).targets node rest

section

variable (r r' : Registry)

/-! ### Lookups in terms of places -/

theorem Tidy.position_eq_ok_iff (ht : r.Tidy) (address : FieldAddress) (name : String) :
    (r.struct address.struct).position name = .ok address.position ↔
      r.CarriesAt (.field address) name := by
  rw [carriesAt_field_iff, fieldAt?]
  rcases hf : (r.struct address.struct).fields with _ | fields
  · simp only [StructType.position, hf, reduceCtorEq, Option.bind_none, false_and, exists_false]
  · rw [StructType.position_eq_ok_iff _ fields hf (ht.fields _ fields hf), Option.bind_some]

theorem Tidy.getField_eq_ok_iff (ht : r.Tidy) (i : Nat) (name : String) (field : Field) :
    (r.struct i).getField name = .ok field ↔
      ∃ place, r.fieldAt? ⟨i, place⟩ = some field ∧ field.names.Carries name := by
  simp only [fieldAt?]
  rcases hf : (r.struct i).fields with _ | fields
  · simp only [StructType.getField, hf, reduceCtorEq, Option.bind_none, false_and, exists_false]
  · rw [StructType.getField_eq_ok_iff _ fields hf (ht.fields i fields hf)]
    simp only [Option.bind_some]

/-! ### Inheritance -/

namespace Inherits

variable (h : Inherits r r') (ht : r.Tidy) (ht' : r'.Tidy)

include h ht'

/-- A name stands for the type that it stood for. -/
theorem get (name : String) (handle : Handle) (hg : r.get name = .ok handle) :
    r'.get name = .ok handle := by
  have hsound : r.CarriesAt (.type handle) name := by
    rw [carriesAt_type_iff]
    rw [Registry.get] at hg
    rcases hf : r.find? name with _ | found
    · rw [hf] at hg
      cases hg
    · rw [hf, Except.ok.injEq] at hg
      exact hg ▸ r.find?_sound name found hf
  rw [r'.get_eq_ok_iff ht'.distinct name handle, ← carriesAt_type_iff]
  exact h.carries _ name hsound

include ht

theorem position (i place : Nat) (name : String) (hp : (r.struct i).position name = .ok place) :
    (r'.struct i).position name = .ok place := by
  have hc := (ht.position_eq_ok_iff r ⟨i, place⟩ name).mp hp
  exact (ht'.position_eq_ok_iff r' ⟨i, place⟩ name).mpr (h.carries _ name hc)

/-- A name stands for the field that it stood for, whatever that is called now. -/
theorem getField (i : Nat) (name : String) (field : Field)
    (hg : (r.struct i).getField name = .ok field) :
    ∃ field', (r'.struct i).getField name = .ok field' ∧ field'.body = field.body := by
  rcases (ht.getField_eq_ok_iff r i name field).mp hg with ⟨place, hf, hc⟩
  have hcarries := h.carries (.field ⟨i, place⟩) name
    ((r.carriesAt_field_iff _ name).mpr ⟨field, hf, hc⟩)
  rcases (r'.carriesAt_field_iff _ name).mp hcarries with ⟨field', hf', hc'⟩
  -- Both bodies are read off the one skeleton, at the same place.
  have hbody : some field'.body = some field.body := by
    rw [← Option.map_some, ← Option.map_some, ← hf, ← hf', body_fieldAt?, body_fieldAt?, h.skeleton]
  exact ⟨field', (ht'.getField_eq_ok_iff r' i name field').mpr ⟨place, hf', hc'⟩,
    Option.some.inj hbody⟩

/-- A path goes through the structs that it went through. -/
theorem walk (path : FieldPath) (i j : Nat) (segments : List String)
    (hw : r.walk path i segments = .ok j) : r'.walk path i segments = .ok j := by
  induction segments generalizing i with
  | nil => exact hw
  | cons segment rest ih =>
      rcases (r.walk_cons_eq_ok_iff path i j segment rest).mp hw with
        ⟨field, next, hg, hnext, hrest⟩
      rcases h.getField r r' ht ht' i segment field hg with ⟨field', hg', hbody⟩
      -- The walk goes on by the type of the field, and that belongs to its body.
      have htype : field'.type = field.type := congrArg FieldBody.type hbody
      exact (r'.walk_cons_eq_ok_iff path i j segment rest).mpr
        ⟨field', next, hg', htype.trans hnext, ih next hrest⟩

/-- A path ends where it ended. -/
theorem locate (root : Nat) (path : FieldPath) (address : FieldAddress)
    (hl : r.locate root path = .ok address) : r'.locate root path = .ok address := by
  rcases (r.locate_eq_ok_iff path root address).mp hl with ⟨last, hlast, hw, hp⟩
  exact (r'.locate_eq_ok_iff path root address).mpr ⟨last, hlast,
    h.walk r r' ht ht' path root address.struct _ hw,
    h.position r r' ht ht' address.struct address.position last hp⟩

end Inherits

/-! ### Changes one after the other -/

theorem given?_of_ok (c : Change) (target node : Node) (ha : r.addressed c = .ok target)
    (hp : r.perform c = .ok r') :
    r.given? c node = if target = node then c.revision.newName? else none := by
  rw [given?, ha, hp]

theorem given?_of_error (c : Change) (node : Node) (e : SchemaError)
    (hp : r.perform c = .error e) : r.given? c node = none := by
  rw [given?, hp]
  rcases r.addressed c with e | target
  · rfl
  · rfl

/-- A change adds to the names of a node the one that it gives. -/
theorem exists_heading_after (c : Change) (node : Node) (old : Heading)
    (hh : r.heading? node = some old) : ∃ new, (r.after c).heading? node = some new ∧
      (∀ x, new.names.Carries x ↔ old.names.Carries x ∨ r.given? c node = some x) ∧
      new.names.name = (r.given? c node).getD old.names.name := by
  rcases hp : r.perform c with e | r'
  · -- What fails gives no name.
    rw [r.after_of_error c e hp, r.given?_of_error c node e hp]
    exact ⟨old, hh, fun x => by simp only [reduceCtorEq, or_false], rfl⟩
  · rcases r.perform_eq_ok r' c hp with ⟨target, ha, ⟨hnone, rfl⟩ | ⟨old', new, hh', hnew, rfl⟩⟩
    · -- The change is about something that is not there.
      have hne : target ≠ node := by
        rintro rfl
        rw [hh] at hnone
        exact nomatch hnone
      rw [r'.after_of_ok r' c hp, r'.given?_of_ok r' c target node ha hp, if_neg hne]
      exact ⟨old, hh, fun x => by simp only [reduceCtorEq, or_false], rfl⟩
    · rw [r.after_of_ok _ c hp, r.given?_of_ok _ c target node ha hp]
      -- A heading has been replaced, that of this node or of another one.
      by_cases heq : target = node
      · rw [heq, hh, Option.some.injEq] at hh'
        rw [if_pos heq, heq, hh']
        rw [heq] at hnew
        refine ⟨new, r.heading?_setHeading_self node old' new (hh' ▸ hh), ?_, ?_⟩
        · exact Heading.carries_revise old' new _ _ hnew
        · exact Heading.name_revise old' new _ _ hnew
      · rw [if_neg heq, r.heading?_setHeading_other target node new (Ne.symm heq)]
        exact ⟨old, hh, fun x => by simp only [reduceCtorEq, or_false], rfl⟩

/-- After some changes a node has its old names and those that it was given, and is called by
    the last of them. -/
theorem exists_heading_undergo (changes : List Change) (node : Node) (old : Heading)
    (hh : r.heading? node = some old) : ∃ new, (r.undergo changes).heading? node = some new ∧
      (∀ x, new.names.Carries x ↔ old.names.Carries x ∨ x ∈ r.targets node changes) ∧
      new.names.name = (r.targets node changes).getLast?.getD old.names.name := by
  induction changes generalizing r old with
  | nil => exact ⟨old, hh, fun x => by simp only [targets, List.not_mem_nil, or_false], rfl⟩
  | cons c rest ih =>
      rcases r.exists_heading_after c node old hh with ⟨mid, hmid, hcarries, hname⟩
      rcases ih (r.after c) mid hmid with ⟨new, hnew, hcarries', hname'⟩
      refine ⟨new, hnew, fun x => ?_, ?_⟩
      · rw [hcarries' x, hcarries x, targets, List.mem_append, Option.mem_toList,
          or_assoc]
      · -- The last name given is one of the rest, or else the one that was given first.
        rw [hname', hname, targets, List.getLast?_append]
        rcases ((r.after c).targets node rest).getLast? with _ | last
        · rcases r.given? c node with _ | name
          · rfl
          · rfl
        · rfl

/-- No change loses a name. -/
theorem inherits_undergo (changes : List Change) : Inherits r (r.undergo changes) where
  skeleton := by
    induction changes generalizing r with
    | nil => rfl
    | cons c rest ih => rw [undergo_cons, ih (r.after c), skeleton_after]
  carries := by
    rintro node name ⟨old, hh, hc⟩
    rcases r.exists_heading_undergo changes node old hh with ⟨new, hnew, hcarries, _⟩
    exact ⟨new, hnew, (hcarries name).mpr (Or.inl hc)⟩

/-! ### There and back -/

/-- A node can take any of its own names for the live name. -/
theorem exists_perform_of_carries (c : Change) (node : Node) (old : Heading) (name : String)
    (ha : r.addressed c = .ok node) (hh : r.heading? node = some old)
    (hr : c.revision = .rename name) (hc : old.names.Carries name) :
    ∃ new, r.perform c = .ok (r.setHeading new node) ∧ new.names.name = name ∧
      (∀ x, new.names.Carries x ↔ old.names.Carries x) ∧ new.documentation = old.documentation := by
  rcases (old.exists_revise_rename_iff (r.scopeOf node) (r.taken node) name).mpr (Or.inl hc) with
    ⟨new, hnew⟩
  have hrename := (old.revise_rename_eq_ok_iff new _ _ name).mp hnew
  refine ⟨new, ?_, Names.name_of_rename hrename.1, fun x => ?_, hrename.2⟩
  · rw [r.perform_of_addressed c node ha, r.revise_eq node _ old hh, hr, hnew]
    rfl
  · rw [Names.carries_rename hrename.1]
    exact ⟨fun h => h.elim id fun hx => hx ▸ hc, Or.inl⟩

/-- A node takes an alias for the live name, and then the old name again. -/
theorem undergo_there_and_back (c c' : Change) (node : Node) (old : Heading) (name : String)
    (hh : r.heading? node = some old) (hc : old.names.Carries name)
    (ha : r.addressed c = .ok node) (hr : c.revision = .rename name)
    (ha' : (r.after c).addressed c' = .ok node) (hr' : c'.revision = .rename old.names.name) :
    r.undergo [c, c'] = r := by
  rcases r.exists_perform_of_carries c node old name ha hh hr hc with
    ⟨mid, hp, _, hcarries, hdoc⟩
  rw [r.after_of_ok _ c hp] at ha'
  have hmid := r.heading?_setHeading_self node old mid hh
  rcases exists_perform_of_carries _ c' node mid old.names.name ha' hmid hr'
    ((hcarries _).mpr Names.carries_name) with ⟨new, hp', hname', hcarries', hdoc'⟩
  have hundergo : r.undergo [c, c'] = (r.setHeading mid node).setHeading new node := by
    rw [undergo_cons, undergo_cons, r.after_of_ok _ c hp, after_of_ok _ _ c' hp']
    rfl
  -- In the end the node has its old names again, and the live name among them.
  have hnew : new = old := by
    have hnames : new.names = old.names := Names.ext_of_carries _ _ hname' fun x => by
      rw [hcarries' x, hcarries x]
    have hdocs : new.documentation = old.documentation := hdoc'.trans hdoc
    cases new
    cases old
    simp only at hnames hdocs
    rw [hnames, hdocs]
  rw [hundergo, hnew]
  refine ext_of_headings _ r ?_ fun other => ?_
  · rw [skeleton_setHeading, skeleton_setHeading]
  · by_cases ho : other = node
    · rw [ho, heading?_setHeading_self _ node mid old hmid, hh]
    · rw [heading?_setHeading_other _ node other old ho,
        heading?_setHeading_other _ node other mid ho]

/-- In the registries that there can be, whatever changes are tried: names and paths stand for
    what they stood for, a node has its old names and those that it was given and is called by the
    last of them, to take an alias for the live name can be undone, and a renaming of something
    that is there succeeds exactly if nothing else of its scope carries the name. -/
theorem lineage_kept (hr : r.Built) (changes : List Change) :
    (∀ name handle, r.get name = .ok handle → (r.undergo changes).get name = .ok handle) ∧
    (∀ root path address, r.locate root path = .ok address →
      (r.undergo changes).locate root path = .ok address) ∧
    (∀ node old, r.heading? node = some old → ∃ new,
      (r.undergo changes).heading? node = some new ∧
      (∀ x, new.names.Carries x ↔ old.names.Carries x ∨ x ∈ r.targets node changes) ∧
      new.names.name = (r.targets node changes).getLast?.getD old.names.name) ∧
    (∀ c c' node old name, r.heading? node = some old → old.names.Carries name →
      r.addressed c = .ok node → c.revision = .rename name →
      (r.after c).addressed c' = .ok node → c'.revision = .rename old.names.name →
      r.undergo [c, c'] = r) ∧
    ∀ c node old name, r.heading? node = some old → r.addressed c = .ok node →
      c.revision = .rename name →
      ((∃ r', r.perform c = .ok r') ↔
        ∀ other, node.SameScope other → r.CarriesAt other name → other = node) := by
  -- Whether or not a change succeeds, names and nodes are inherited.
  have hinherits := r.inherits_undergo changes
  have ht' := (hr.undergo r changes).tidy
  refine ⟨hinherits.get r _ ht', hinherits.locate r _ hr.tidy ht',
    r.exists_heading_undergo changes, r.undergo_there_and_back, ?_⟩
  intro c node old name hh ha hrevision
  rw [r.perform_of_addressed c node ha, hrevision]
  exact hr.tidy.exists_revise_rename_iff r node old hh name

end

end Registry

namespace Sample

/-- The price of an item is renamed twice, the second time by a path through the next item that
    still has its old name. In between the colour tries to take the name. -/
def refitting : List Change :=
  [.renameField 0 "price" "cost", .renameField 0 "colour" "price",
    .edit 0 ⟨["next", "price"]⟩ (.renameField "amount"),
    .edit 0 ⟨[]⟩ (.renameType "shop.Article")]

end Sample

open Sample

theorem lineage_kept_items : (items.undergo refitting).get "shop.Item" = .ok (.struct 0) ∧
    (items.undergo refitting).locate 0 ⟨["next", "next", "price"]⟩ = .ok ⟨0, 0⟩ ∧
    ∃ new, (items.undergo refitting).heading? (.field ⟨0, 0⟩) = some new ∧
      new.names.name = "amount" ∧ new.names.Carries "cost" := by
  have hkept := Registry.lineage_kept items items_built refitting
  have htargets : items.targets (.field ⟨0, 0⟩) refitting = ["cost", "amount"] := by decide
  rcases hkept.2.2.1 (.field ⟨0, 0⟩) _ rfl with ⟨new, hnew, hcarries, hname⟩
  rw [htargets] at hname
  refine ⟨hkept.1 _ _ rfl, hkept.2.1 0 _ _ rfl, new, hnew, hname, ?_⟩
  rw [hcarries, htargets]
  exact Or.inr List.mem_cons_self

end Schemata
