import Schemata.Proofs.EditFrames

/-!
# Edits in Either Order

Two edits that have nothing to do with each other may change places.

That their nodes differ is not enough of a reason. The first edit may rename
something on the way of the second path, and it changes which names are taken
when the second one looks. The path does no harm, because every name is inherited
(`Registry.Inherits.target`). As for the names, a renaming is permitted if no
other node of the scope carries the new name (`Registry.Permits`). Names only
come to be carried and never cease to be, so an edit that was permitted behind
another one was permitted from the start. The other way round, the one name
that the second edit adds is not the one that the first edit wants, or else the
second would have been refused.

Then both orders end with the same headings. A heading after a revision is
settled by what it was (`Heading.RevisedTo.eq`), so nodes that differ have what
each edit gives them, and a node that gets a name from one edit and a
documentation from the other has both. As a registry is nothing more than its
skeleton and its headings, the registries are equal, and every lookup with them.

## Main definitions

* `Revision.Apart`: One revision gives a name and the other a documentation.
* `Registry.Permits`: No other node of the scope carries the new name.

## Theorems

* `Heading.RevisedTo.comm`: Revisions that are apart can be made in either order.
* `Registry.carriesAt_revise_iff`: A revision adds at most its name to its node.
* `Registry.Inherits.target`: A path leads to the node that it led to.
* `Registry.Built.exists_revise_swapped`, `Registry.revise_comm_eq`: Revisions can be made in
  the other order, and come to the same.
* `Registry.edits_commute`: Edits change places.
-/

namespace Schemata

/-- One of the revisions gives a name, and the other one a documentation. -/
def Revision.Apart (a b : Revision) : Prop :=
  a.newName?.isSome ≠ b.newName?.isSome

instance (a b : Revision) : Decidable (a.Apart b) :=
  inferInstanceAs (Decidable (_ ≠ _))

theorem Node.SameScope.symm (node other : Node) (h : node.SameScope other) :
    other.SameScope node := by
  rcases node with _ | a <;> rcases other with _ | b
  · exact h
  · exact h
  · exact h
  · exact Eq.symm h

namespace Heading

variable (old mid mid' new new' : Heading) (revision revision' : Revision)

theorem ext_of_carries (a b : Heading) (hn : a.names.name = b.names.name)
    (hc : ∀ x, a.names.Carries x ↔ b.names.Carries x) (hd : a.documentation = b.documentation) :
    a = b := by
  have hnames := Names.ext_of_carries a.names b.names hn hc
  cases a
  cases b
  simp only at hnames hd
  rw [hnames, hd]

/-- What a heading is revised to is settled. -/
theorem RevisedTo.eq (h : old.RevisedTo new revision) (h' : old.RevisedTo new' revision) :
    new = new' := by
  cases revision with
  | rename name =>
      rcases h with ⟨hdoc, hname, hcarries⟩
      rcases h' with ⟨hdoc', hname', hcarries'⟩
      exact ext_of_carries new new' (hname.trans hname'.symm)
        (fun x => (hcarries x).trans (hcarries' x).symm) (hdoc.trans hdoc'.symm)
  | document doc =>
      rcases h with ⟨hnames, hdoc⟩
      rcases h' with ⟨hnames', hdoc'⟩
      have heq : new.names = new'.names := hnames.trans hnames'.symm
      exact ext_of_carries new new' (by rw [heq]) (fun x => by rw [heq]) (hdoc.trans hdoc'.symm)

/-- Revisions that are apart can be made in either order. -/
theorem RevisedTo.comm (ha : revision.Apart revision') (h : old.RevisedTo mid revision)
    (h₂ : mid.RevisedTo new revision') (h' : old.RevisedTo mid' revision')
    (h₂' : mid'.RevisedTo new' revision) : new = new' := by
  -- One side has been renamed first and documented then, and the other the other way round.
  have hboth : ∀ (name : String) (doc : Option String) (a b c d : Heading),
      old.RevisedTo a (.rename name) → a.RevisedTo b (.document doc) →
      old.RevisedTo c (.document doc) → c.RevisedTo d (.rename name) → b = d := by
    intro name doc a b c d hrename hdocument hdocument' hrename'
    rcases hrename with ⟨_, hname, hcarries⟩
    rcases hrename' with ⟨hdoc, hname', hcarries'⟩
    refine ext_of_carries b d ?_ (fun x => ?_) ?_
    · rw [hdocument.1, hname, hname']
    · rw [hdocument.1, hcarries, hcarries', hdocument'.1]
    · rw [hdocument.2, hdoc, hdocument'.2]
  rcases revision with name | doc <;> rcases revision' with name' | doc'
  · exact absurd rfl ha
  · exact hboth name doc' mid new mid' new' h h₂ h' h₂'
  · exact (hboth name' doc mid' new' mid new h' h₂' h h₂).symm
  · exact absurd rfl ha

end Heading

namespace Registry

/-- No other node of the scope carries the name that the revision gives, if it gives one. -/
def Permits (r : Registry) (node : Node) (revision : Revision) : Prop :=
  ∀ name, revision.newName? = some name →
    ∀ other, node.SameScope other → r.CarriesAt other name → other = node

section

variable (r r' : Registry) (node : Node) (revision : Revision) (old : Heading)

/-! ### One revision -/

/-- A revision that succeeds has replaced the heading of its node. -/
theorem exists_revisedTo (hh : r.heading? node = some old)
    (h : r.revise node revision = .ok r') :
    ∃ new, old.RevisedTo new revision ∧ r' = r.setHeading new node := by
  rw [r.revise_eq node revision old hh] at h
  rcases hnew : old.revise (r.scopeOf node) (r.taken node) revision with e | new
  · rw [hnew] at h
    exact nomatch h
  · rw [hnew, Except.map, Except.ok.injEq] at h
    exact ⟨new, old.revisedTo_of_revise new hnew, h.symm⟩

/-- A node that is there is revised if its scope permits it. -/
theorem Tidy.exists_revise_iff (ht : r.Tidy) (hh : r.heading? node = some old) :
    (∃ r', r.revise node revision = .ok r') ↔ r.Permits node revision := by
  unfold Permits
  cases revision with
  | rename name =>
      rw [ht.exists_revise_rename_iff r node old hh name]
      simp only [Revision.newName?, Option.some.injEq, forall_eq']
  | document doc =>
      simp only [Revision.newName?, reduceCtorEq, false_implies, implies_true, iff_true]
      rw [r.revise_eq node _ old hh]
      exact ⟨_, rfl⟩

/-- A revision adds its name to the names of its node, and no name to another node. -/
theorem carriesAt_revise_iff (hh : r.heading? node = some old)
    (h : r.revise node revision = .ok r') (other : Node) (x : String) :
    r'.CarriesAt other x ↔
      r.CarriesAt other x ∨ (other = node ∧ revision.newName? = some x) := by
  rcases r.exists_revisedTo r' node revision old hh h with ⟨new, hrevised, rfl⟩
  -- In the heading itself only a new name adds one.
  have hnew : new.names.Carries x ↔ old.names.Carries x ∨ revision.newName? = some x := by
    cases revision with
    | rename name => rw [hrevised.2.2 x, Revision.newName?, Option.some.injEq, eq_comm]
    | document doc =>
        rw [hrevised.1]
        simp only [Revision.newName?, reduceCtorEq, or_false]
  unfold CarriesAt
  by_cases hn : other = node
  · rw [hn, r.heading?_setHeading_self node old new hh, hh]
    simp only [Option.some.injEq, exists_eq_left', true_and]
    exact hnew
  · rw [r.heading?_setHeading_other node other new hn]
    simp only [hn, false_and, or_false]

/-! ### Two revisions -/

variable (node' : Node) (revision' : Revision) (old' : Heading)

/-- The headings of two nodes are replaced in either order. -/
theorem setHeading_comm (hne : node ≠ node') (new new' : Heading)
    (hh : r.heading? node = some old) (hh' : r.heading? node' = some old') :
    (r.setHeading new node).setHeading new' node'
      = (r.setHeading new' node').setHeading new node := by
  have hmid := r.heading?_setHeading_other node node' new (Ne.symm hne)
  have hmid' := r.heading?_setHeading_other node' node new' hne
  refine ext_of_headings _ _ ?_ fun other => ?_
  · simp only [skeleton_setHeading]
  -- A heading is read at the one node, at the other, or elsewhere.
  by_cases ho : other = node
  · rw [ho, heading?_setHeading_other _ node' node new' hne,
      r.heading?_setHeading_self node old new hh,
      heading?_setHeading_self _ node old new (hmid'.trans hh)]
  by_cases ho' : other = node'
  · rw [ho', heading?_setHeading_self _ node' old' new' (hmid.trans hh'),
      heading?_setHeading_other _ node node' new (Ne.symm hne),
      r.heading?_setHeading_self node' old' new' hh']
  · rw [heading?_setHeading_other _ node' other new' ho',
      r.heading?_setHeading_other node other _ ho,
      heading?_setHeading_other _ node other new ho, r.heading?_setHeading_other node' other _ ho']

/-- The heading of a node is replaced twice. -/
theorem setHeading_setHeading (new new' : Heading) (hh : r.heading? node = some old) :
    (r.setHeading new node).setHeading new' node = r.setHeading new' node := by
  have hmid := r.heading?_setHeading_self node old new hh
  refine ext_of_headings _ _ ?_ fun other => ?_
  · simp only [skeleton_setHeading]
  by_cases ho : other = node
  · rw [ho, heading?_setHeading_self _ node new new' hmid, r.heading?_setHeading_self node old _ hh]
  · simp only [heading?_setHeading_other _ node other _ ho]

/-- What is permitted behind another revision was permitted before it. -/
theorem Permits.of_revise (hh : r.heading? node = some old)
    (h : r.revise node revision = .ok r') (hp : r'.Permits node' revision') :
    r.Permits node' revision' := by
  intro name hname other hs hc
  exact hp name hname other hs
    ((r.carriesAt_revise_iff r' node revision old hh h other name).mpr (Or.inl hc))

/-- What was permitted is still permitted behind a revision that could have come second. -/
theorem Permits.of_revise_other (r₁ : Registry) (hh : r.heading? node = some old)
    (hh' : r.heading? node' = some old') (h : r.revise node revision = .ok r₁)
    (h' : r.revise node' revision' = .ok r') (hp : r.Permits node revision)
    (hp' : r₁.Permits node' revision') : r'.Permits node revision := by
  intro name hname other hs hc
  rcases (r.carriesAt_revise_iff r' node' revision' old' hh' h' other name).mp hc with
    hold | ⟨rfl, hname'⟩
  · exact hp name hname other hs hold
  · -- The other node wants the name as well, but it could not have had it behind the first.
    have hc₁ := (r.carriesAt_revise_iff r₁ node revision old hh h node name).mpr
      (Or.inr ⟨rfl, hname⟩)
    exact (hp' name hname' node (hs.symm node other) hc₁).symm

/-- A node that is there stays there, and only the one that is revised has another heading. -/
theorem heading?_revise (r₁ : Registry) (hh : r.heading? node = some old)
    (hh' : r.heading? node' = some old') (h : r.revise node revision = .ok r₁) :
    ∃ mid, r₁.heading? node' = some mid ∧ (node' ≠ node → mid = old') ∧
      (node' = node → old.RevisedTo mid revision) := by
  rcases r.exists_revisedTo r₁ node revision old hh h with ⟨new, hnew, rfl⟩
  by_cases hn : node' = node
  · refine ⟨new, ?_, fun hne => absurd hn hne, fun _ => hnew⟩
    rw [hn, r.heading?_setHeading_self node old new hh]
  · refine ⟨old', ?_, fun _ => rfl, fun he => absurd he hn⟩
    rw [r.heading?_setHeading_other node node' new hn, hh']

/-- Two revisions that succeed one behind the other succeed in the other order. -/
theorem Built.exists_revise_swapped (hr : r.Built) (hh : r.heading? node = some old)
    (hh' : r.heading? node' = some old') (r₁ r₂ : Registry)
    (h : r.revise node revision = .ok r₁) (h₂ : r₁.revise node' revision' = .ok r₂) :
    ∃ r₁' r₂', r.revise node' revision' = .ok r₁' ∧ r₁'.revise node revision = .ok r₂' := by
  have hr₁ := hr.revise r r₁ node revision h
  rcases r.heading?_revise node revision old node' old' r₁ hh hh' h with ⟨mid', hmid', _⟩
  have hpermits := (hr.tidy.exists_revise_iff r node revision old hh).mp ⟨r₁, h⟩
  have hpermits' := (hr₁.tidy.exists_revise_iff r₁ node' revision' mid' hmid').mp ⟨r₂, h₂⟩
  -- The second revision can be made first,
  have hfirst := hpermits'.of_revise r r₁ node revision old node' revision' hh h
  rcases (hr.tidy.exists_revise_iff r node' revision' old' hh').mpr hfirst with ⟨r₁', h'⟩
  -- and the first one behind it.
  have hr₁' := hr.revise r r₁' node' revision' h'
  rcases r.heading?_revise node' revision' old' node old r₁' hh' hh h' with ⟨mid, hmid, _⟩
  have hsecond := hpermits.of_revise_other r r₁' node revision old node' revision' old' r₁ hh hh' h
    h' hpermits'
  rcases (hr₁'.tidy.exists_revise_iff r₁' node revision mid hmid).mpr hsecond with ⟨r₂', h₂'⟩
  exact ⟨r₁', r₂', h', h₂'⟩

/-- Revisions of two nodes come to the same in either order, and so do revisions of one node that
    are apart. -/
theorem revise_comm_eq (hh : r.heading? node = some old) (hh' : r.heading? node' = some old')
    (hi : node ≠ node' ∨ revision.Apart revision') (r₁ r₂ r₁' r₂' : Registry)
    (h : r.revise node revision = .ok r₁) (h₂ : r₁.revise node' revision' = .ok r₂)
    (h' : r.revise node' revision' = .ok r₁') (h₂' : r₁'.revise node revision = .ok r₂') :
    r₂' = r₂ := by
  rcases r.heading?_revise node revision old node' old' r₁ hh hh' h with
    ⟨mid', hmid', hother', hself'⟩
  rcases r.heading?_revise node' revision' old' node old r₁' hh' hh h' with
    ⟨mid, hmid, hother, hself⟩
  rcases r.exists_revisedTo r₁ node revision old hh h with ⟨new, hnew, hr₁⟩
  rcases r.exists_revisedTo r₁' node' revision' old' hh' h' with ⟨new', hnew', hr₁'⟩
  rcases r₁.exists_revisedTo r₂ node' revision' mid' hmid' h₂ with ⟨last', hlast', rfl⟩
  rcases r₁'.exists_revisedTo r₂' node revision mid hmid h₂' with ⟨last, hlast, rfl⟩
  by_cases hn : node = node'
  · -- One heading has been revised twice.
    subst hn
    rw [hh, Option.some.injEq] at hh'
    subst hh'
    have heq := Heading.RevisedTo.comm old mid' mid last' last revision revision'
      (hi.resolve_left fun hne => hne rfl) (hself' rfl) hlast' (hself rfl) hlast
    rw [hr₁, hr₁', r.setHeading_setHeading node old new last' hh,
      r.setHeading_setHeading node old new' last hh, heq]
  · -- Each node has been revised once, behind the other one or before it.
    rw [hother hn] at hlast
    rw [hother' (Ne.symm hn)] at hlast'
    rw [hr₁, hr₁', hnew.eq old new last revision hlast, hnew'.eq old' new' last' revision' hlast',
      r.setHeading_comm node old node' old' hn last last' hh hh']

/-! ### Two edits -/

/-- A path leads to the node that it led to. -/
theorem Inherits.target (h : Inherits r r') (ht : r.Tidy) (ht' : r'.Tidy) (root : Nat)
    (path : FieldPath) (edit : Edit) (node : Node) (htarget : r.target root path edit = .ok node) :
    r'.target root path edit = .ok node := by
  have hlocate : ∀ address, r.locate root path = .ok address → r'.locate root path = .ok address :=
    h.locate r r' ht ht' root path
  have hnamed : ∀ handle, r.resolveNamed root path = .ok handle →
      r'.resolveNamed root path = .ok handle := by
    intro handle hres
    rw [resolveNamed_eq_ok_iff, resolve_eq_ok_iff] at hres ⊢
    rcases hres with hroot | ⟨hroot, address, field, hl, hf, htype⟩
    · exact Or.inl hroot
    · -- The type of the field belongs to the skeleton.
      have hbody := r'.body_fieldAt? address
      rw [h.skeleton, ← r.body_fieldAt? address, hf, Option.map_some,
        Option.map_eq_some_iff] at hbody
      rcases hbody with ⟨field', hf', hbody⟩
      exact Or.inr ⟨hroot, address, field', hlocate address hl, hf',
        (congrArg FieldBody.type hbody).trans htype⟩
  have hmap : ∀ {α : Type} (f : α → Node) (x y : Except SchemaError α),
      (∀ a, x = .ok a → y = .ok a) → x.map f = .ok node → y.map f = .ok node := by
    intro α f x y hxy hx
    rcases x with e | a
    · exact nomatch hx
    · rw [hxy a rfl]
      exact hx
  cases edit with
  | renameField name => exact hmap .field _ _ hlocate htarget
  | documentField text => exact hmap .field _ _ hlocate htarget
  | renameType name => exact hmap .type _ _ hnamed htarget
  | documentType text => exact hmap .type _ _ hnamed htarget

theorem edit_of_target (root : Nat) (path : FieldPath) (edit : Edit)
    (h : r.target root path edit = .ok node) :
    r.edit root path edit = r.revise node edit.revision :=
  r.perform_of_addressed (.edit root path edit) node h

/-- An edit that succeeds takes no path from another one. -/
theorem Built.target_edit (hr : r.Built) (root : Nat) (path path' : FieldPath) (edit edit' : Edit)
    (h : r.edit root path edit = .ok r') (htarget : r.target root path' edit' = .ok node) :
    r'.target root path' edit' = .ok node := by
  have hinherits := r.inherits_undergo [.edit root path edit]
  rw [undergo_cons, r.after_of_ok r' (.edit root path edit) h] at hinherits
  exact hinherits.target r r' hr.tidy (hr.edit r r' root path edit h).tidy root path' edit' node
    htarget

/-- Two edits whose paths lead to nodes that are there, either to different ones or with a new
    name from one edit and a documentation from the other: if the second succeeds behind the
    first, then they also succeed in the other order, and the registry is the same in the end. -/
theorem edits_commute (hr : r.Built) (root : Nat) (path path' : FieldPath) (edit edit' : Edit)
    (node node' : Node) (htarget : r.target root path edit = .ok node)
    (htarget' : r.target root path' edit' = .ok node') (hh : (r.heading? node).isSome = true)
    (hh' : (r.heading? node').isSome = true)
    (hi : node ≠ node' ∨ edit.revision.Apart edit'.revision) (r₁ r₂ : Registry)
    (h : r.edit root path edit = .ok r₁) (h₂ : r₁.edit root path' edit' = .ok r₂) :
    ∃ r₁', r.edit root path' edit' = .ok r₁' ∧ r₁'.edit root path edit = .ok r₂ := by
  rcases Option.isSome_iff_exists.mp hh with ⟨old, hold⟩
  rcases Option.isSome_iff_exists.mp hh' with ⟨old', hold'⟩
  -- An edit leaves the paths of the other one as they are, in either order.
  have htarget₁ := hr.target_edit r r₁ node' root path path' edit edit' h htarget'
  rw [r₁.edit_of_target node' root path' edit' htarget₁] at h₂
  have hrevise := h
  rw [r.edit_of_target node root path edit htarget] at hrevise
  -- What is left is about revisions of two nodes.
  rcases hr.exists_revise_swapped r node edit.revision old node' edit'.revision old' hold hold'
    r₁ r₂ hrevise h₂ with ⟨r₁', r₂', h', h₂'⟩
  have hedit' : r.edit root path' edit' = .ok r₁' := by
    rw [r.edit_of_target node' root path' edit' htarget', h']
  have htarget₁' := hr.target_edit r r₁' node root path' path edit' edit hedit' htarget
  refine ⟨r₁', hedit', ?_⟩
  rw [r₁'.edit_of_target node root path edit htarget₁', h₂', r.revise_comm_eq node edit.revision old
    node' edit'.revision old' hold hold' hi r₁ r₂ r₁' r₂' hrevise h₂ h' h₂']

end

end Registry

open Sample

/-- The second path goes through the field that the first edit renames, and ends at its sibling. -/
theorem edits_commute_items : ∃ r₁ r₂ r₁',
    items.edit 0 ⟨["next"]⟩ (.renameField "following") = .ok r₁ ∧
    r₁.edit 0 ⟨["next", "price"]⟩ (.renameField "cost") = .ok r₂ ∧
    items.edit 0 ⟨["next", "price"]⟩ (.renameField "cost") = .ok r₁' ∧
    r₁'.edit 0 ⟨["next"]⟩ (.renameField "following") = .ok r₂ := by
  rcases Registry.edits_commute items items_built 0 ⟨["next"]⟩ ⟨["next", "price"]⟩
    (.renameField "following") (.renameField "cost") _ _ rfl rfl rfl rfl (Or.inl (by decide)) _ _
    rfl rfl with ⟨r₁', h, h'⟩
  exact ⟨_, _, r₁', rfl, rfl, h, h'⟩

end Schemata
