import Schemata.Proofs.Built
import Schemata.Proofs.Registry.Headings

/-!
# Changes of Headings

Every way to rename or to document something, as the revision of one heading.

There are eight of them. A type is known by its handle, or stands at the end of
a path; a field is known by its struct and one of its names, or by a path; and
either may be renamed or documented. They differ in how they find the node that
they are about (`Registry.addressed`), and what is done there is one of four
operations (`Registry.revise`). On a node that exists each of the four comes to
the same: take its heading, revise it, and put it back (`revise_eq`). So
`perform_eq_ok` says once for all what a change that succeeds has done, and
`Tidy.exists_revise_rename_iff` once for all when a renaming succeeds.

A type that is not there is a case of its own. It has no heading, and to rename
it changes nothing.

## Main definitions

* `Revision`, `Heading.revise`: What is done to a heading.
* `Change`, `Registry.perform`: The ways to rename and to document.
* `Registry.addressed`: The node that a change is about.
* `Registry.CarriesAt`, `Node.SameScope`: The names of a node, and the nodes that
  may not share any of them.
* `Registry.after`, `Registry.undergo`: Changes one after the other, whether they
  succeed or not.

## Theorems

* `Registry.revise_eq`: All four operations revise a heading.
* `Registry.perform_eq_ok`: What a change that succeeds has done.
* `Registry.Tidy.eq_of_carriesAt`: No name is carried twice within a scope.
* `Registry.Tidy.exists_revise_rename_iff`: When a renaming succeeds.
* `Registry.Built.undergo`: Changes make registries that there can be.
-/

namespace Schemata

/-- What is done to a heading. -/
inductive Revision where
  | rename (name : String)
  | document (documentation : Option String)
  deriving DecidableEq, Repr

/-- The heading under another name or with another documentation. -/
def Heading.revise (heading : Heading) (scope : Scope) (taken : String → Bool) :
    Revision → Except SchemaError Heading
  | .rename name => do
    return { heading with names := ← heading.names.rename name scope (taken name) }
  | .document documentation => .ok { heading with documentation := documentation }

/-- The name that a revision gives, if it gives one. -/
def Revision.newName? : Revision → Option String
  | .rename name => some name
  | .document _ => none

namespace Heading

variable (old new : Heading) (scope : Scope) (taken : String → Bool)

theorem revise_rename_eq_ok_iff (name : String) :
    old.revise scope taken (.rename name) = .ok new ↔
      old.names.rename name scope (taken name) = .ok new.names ∧
        new.documentation = old.documentation := by
  rw [revise, bind_eq_ok_iff]
  simp only [pure_eq_ok_iff]
  constructor
  · rintro ⟨names, hn, rfl⟩
    exact ⟨hn, rfl⟩
  · rintro ⟨hn, hdoc⟩
    exact ⟨new.names, hn, by rw [← hdoc]⟩

/-- A heading gets a name that it has or that is free. -/
theorem exists_revise_rename_iff (name : String) :
    (∃ new, old.revise scope taken (.rename name) = .ok new) ↔
      old.names.Carries name ∨ taken name = false := by
  constructor
  · rintro ⟨new, h⟩
    exact Names.free_of_rename ((old.revise_rename_eq_ok_iff new scope taken name).mp h).1
  · intro hfree
    rcases h : old.names.rename name scope (taken name) with e | names
    · -- The only way to fail is for a name that is not one of its own and is taken.
      unfold Names.rename at h
      by_cases hname : name = old.names.name
      · rw [dif_pos hname] at h
        exact nomatch h
      · rw [dif_neg hname] at h
        by_cases hc : name ∉ old.names.aliases ∧ taken name = true
        · rcases hfree with hown | hnot
          · rw [Names.carries_iff] at hown
            exact absurd (hown.resolve_left hname) hc.1
          · rw [hnot] at hc
            exact absurd hc.2 Bool.false_ne_true
        · rw [if_neg hc] at h
          exact nomatch h
    · exact ⟨⟨names, old.documentation⟩,
        (old.revise_rename_eq_ok_iff _ scope taken name).mpr ⟨h, rfl⟩⟩

/-- A revised heading has its old names, and the new one if it is given one. -/
theorem carries_revise {revision : Revision} (h : old.revise scope taken revision = .ok new)
    (x : String) : new.names.Carries x ↔ old.names.Carries x ∨ revision.newName? = some x := by
  cases revision with
  | rename name =>
      have hrename := ((old.revise_rename_eq_ok_iff new scope taken name).mp h).1
      rw [Names.carries_rename hrename, Revision.newName?, Option.some.injEq, eq_comm]
  | document doc =>
      rw [revise, Except.ok.injEq] at h
      simp only [← h, Revision.newName?, reduceCtorEq, or_false]

/-- The new name is the live name. -/
theorem name_revise {revision : Revision} (h : old.revise scope taken revision = .ok new) :
    new.names.name = revision.newName?.getD old.names.name := by
  cases revision with
  | rename name =>
      exact Names.name_of_rename ((old.revise_rename_eq_ok_iff new scope taken name).mp h).1
  | document doc =>
      rw [revise, Except.ok.injEq] at h
      rw [← h, Revision.newName?, Option.getD_none]

end Heading

/-- A way to rename or to document a type or a field. -/
inductive Change where
  | renameType (handle : Handle) (name : String)
  | documentType (handle : Handle) (documentation : Option String)
  | renameField (struct : Nat) (field name : String)
  | documentField (struct : Nat) (field : String) (documentation : Option String)
  | edit (root : Nat) (path : FieldPath) (e : Edit)
  deriving DecidableEq, Repr

/-- What an edit does to the heading of its target. -/
def Edit.revision : Edit → Revision
  | .renameField name | .renameType name => .rename name
  | .documentField text | .documentType text => .document (some text)

/-- What a change does to the heading of its node. -/
def Change.revision : Change → Revision
  | .renameType _ name | .renameField _ _ name => .rename name
  | .documentType _ documentation | .documentField _ _ documentation => .document documentation
  | .edit _ _ e => e.revision

/-- The two nodes are types, or fields of one struct. -/
def Node.SameScope : Node → Node → Prop
  | .type _, .type _ => True
  | .field a, .field b => b.struct = a.struct
  | _, _ => False

namespace StructType

variable (s : StructType) (position : Nat)

/-- Where there is no field, none is renamed. -/
theorem renameAt_of_none (name : String) (h : s.fields.bind (·[position]?) = none) :
    s.renameAt position name = .ok s := by
  unfold renameAt
  rcases hf : s.fields with _ | fields
  · rfl
  · rw [hf, Option.bind_some] at h
    simp only [h]

/-- Where there is no field, none is documented. -/
theorem documentAt_of_none (documentation : Option String)
    (h : s.fields.bind (·[position]?) = none) : s.documentAt position documentation = s := by
  unfold documentAt
  rcases hf : s.fields with _ | fields
  · rw [Option.map_none, ← hf]
  · rw [hf, Option.bind_some] at h
    rw [Option.map_some, List.modify_eq_set_getElem?, h, Option.map_eq_map, Option.map_none,
      Option.getD_none, ← hf]

end StructType

namespace Registry

/-- The node at the end of a path that an edit is about. -/
def target (r : Registry) (root : Nat) (path : FieldPath) : Edit → Except SchemaError Node
  | .renameField _ | .documentField _ => (r.locate root path).map Node.field
  | .renameType _ | .documentType _ => (r.resolveNamed root path).map Node.type

/-- The node that a change is about. -/
def addressed (r : Registry) : Change → Except SchemaError Node
  | .renameType handle _ | .documentType handle _ => .ok (.type handle)
  | .renameField i field _ | .documentField i field _ =>
    ((r.struct i).position field).map fun position => .field ⟨i, position⟩
  | .edit root path e => r.target root path e

/-- Rename or document a node. -/
def revise (r : Registry) : Node → Revision → Except SchemaError Registry
  | .type handle, .rename name => r.rename handle name
  | .type handle, .document documentation => .ok (r.document handle documentation)
  | .field address, .rename name => r.renameFieldAt address.struct address.position name
  | .field address, .document documentation =>
    .ok (r.documentFieldAt address.struct address.position documentation)

/-- Make a change. -/
def perform (r : Registry) : Change → Except SchemaError Registry
  | .renameType handle name => r.rename handle name
  | .documentType handle documentation => .ok (r.document handle documentation)
  | .renameField i field name => r.renameField i field name
  | .documentField i field documentation => r.documentField i field documentation
  | .edit root path e => r.edit root path e

/-- The registry after a change, which may fail. -/
def after (r : Registry) (c : Change) : Registry :=
  match r.perform c with
  | .ok r' => r'
  | .error _ => r

/-- The registry after one change and the other. -/
def undergo (r : Registry) (changes : List Change) : Registry :=
  changes.foldl after r

/-- The node carries the name. -/
def CarriesAt (r : Registry) (node : Node) (name : String) : Prop :=
  ∃ heading, r.heading? node = some heading ∧ heading.names.Carries name

/-- The names among which the names of a node have to be unique. -/
def scopeOf (r : Registry) : Node → Scope
  | .type _ => .types
  | .field address => .fieldsOf (r.struct address.struct).name

/-- Another field than that at the place carries the name. -/
def takenBeside (r : Registry) (address : FieldAddress) (name : String) : Bool :=
  ((r.struct address.struct).fields.bind (StructType.fieldIndex? · name)).any
    (· ≠ address.position)

/-- Another node of the scope carries the name. -/
def taken (r : Registry) : Node → String → Bool
  | .type handle => r.takenElsewhere handle
  | .field address => r.takenBeside address

section

variable (r r' : Registry)

/-! ### Changes are revisions -/

/-- A change finds its node and revises it. -/
theorem perform_eq (c : Change) :
    r.perform c = (r.addressed c).bind (r.revise · c.revision) := by
  -- A change of a type needs no search. The others find a field or a path first.
  rcases c with _ | _ | ⟨i, field, name⟩ | ⟨i, field, doc⟩ | ⟨root, path, edit⟩
  · rfl
  · rfl
  · rw [perform, addressed, renameField]
    cases (r.struct i).position field <;> rfl
  · rw [perform, addressed, documentField]
    cases (r.struct i).position field <;> rfl
  · rw [perform, addressed]
    rcases edit with name | name | text | text
    · rw [edit, target]
      cases r.locate root path <;> rfl
    · rw [edit, target]
      cases r.resolveNamed root path <;> rfl
    · rw [edit, target]
      cases r.locate root path <;> rfl
    · rw [edit, target]
      cases r.resolveNamed root path <;> rfl

theorem perform_of_addressed (c : Change) (node : Node) (ha : r.addressed c = .ok node) :
    r.perform c = r.revise node c.revision := by
  rw [perform_eq, ha, Except.bind]

/-- On a type that is there a revision is that of its heading. -/
theorem revise_type_eq (h : Handle) (revision : Revision) (hh : r.Holds h) :
    r.revise (.type h) revision = (Heading.revise ⟨r.namesOf h, r.documentationOf h⟩ .types
      (r.takenElsewhere h) revision).map (r.setHeading · (.type h)) := by
  cases revision with
  | rename name =>
      rw [revise, rename, Heading.revise]
      rcases (r.namesOf h).rename name .types (r.takenElsewhere h name) with e | names
      · rfl
      · cases h <;> rfl
  | document doc => cases h <;> rfl

/-- On a field that is there a revision is that of its heading. -/
theorem revise_field_eq (address : FieldAddress) (revision : Revision) (field : Field)
    (hf : r.fieldAt? address = some field) :
    r.revise (.field address) revision = (field.heading.revise
      (.fieldsOf (r.struct address.struct).name) (r.takenBeside address) revision).map
        (r.setHeading · (.field address)) := by
  rcases (r.fieldAt?_eq_some_iff address field).mp hf with ⟨fields, hfields, hposition⟩
  -- To modify what is in place is to put something else there.
  have hmodify : ∀ f : Field → Field,
      fields.modify address.position f = fields.set address.position (f field) := by
    intro f
    rw [List.modify_eq_set_getElem?, hposition, Option.map_eq_map, Option.map_some,
      Option.getD_some]
  cases revision with
  | rename name =>
      have htaken : r.takenBeside address name
          = (StructType.fieldIndex? fields name).any (· ≠ address.position) := by
        rw [takenBeside, hfields, Option.bind_some]
      rw [revise, renameFieldAt, Heading.revise, htaken, Field.heading, StructType.renameAt,
        hfields]
      simp only [hposition]
      rcases field.names.rename name (.fieldsOf (r.struct address.struct).name)
        ((StructType.fieldIndex? fields name).any (· ≠ address.position)) with e | names
      · rfl
      · simp only [bind, Except.bind, pure, Except.pure, Except.map, setHeading,
          StructType.withFieldHeading, hfields, Option.map_some, hmodify]
        rfl
  | document doc =>
      simp only [revise, documentFieldAt, StructType.documentAt, Heading.revise, Except.map,
        setHeading, StructType.withFieldHeading, hfields, Option.map_some, hmodify]
      rfl

/-- On a node that is there a revision is that of its heading. -/
theorem revise_eq (node : Node) (revision : Revision) (heading : Heading)
    (hh : r.heading? node = some heading) :
    r.revise node revision
      = (heading.revise (r.scopeOf node) (r.taken node) revision).map (r.setHeading · node) := by
  cases node with
  | type h =>
      rcases (r.heading?_type_iff h heading).mp hh with ⟨hholds, rfl⟩
      exact r.revise_type_eq h revision hholds
  | field address =>
      rcases (r.heading?_field_iff address heading).mp hh with ⟨field, hf, rfl⟩
      exact r.revise_field_eq address revision field hf

/-- What is not there is not changed. -/
theorem eq_of_revise_of_none (node : Node) (revision : Revision)
    (hn : r.heading? node = none) (h : r.revise node revision = .ok r') : r' = r := by
  rcases node with (i | i) | address
  · -- There is no such struct, so whatever is put in its place is put nowhere.
    have hi : ¬ i < r.structs.length := by
      intro hi
      rw [r.heading?_struct i hi] at hn
      exact nomatch hn
    cases revision with
    | rename name =>
        rcases (rename_eq_ok_iff r r' (.struct i) name).mp h with ⟨names, _, rfl⟩
        exact r.setStruct_eq_self i _ hi
    | document doc =>
        rw [revise, Except.ok.injEq] at h
        rw [← h]
        exact r.setStruct_eq_self i _ hi
  · have hi : ¬ i < r.enums.length := by
      intro hi
      rw [r.heading?_enumeration i hi] at hn
      exact nomatch hn
    cases revision with
    | rename name =>
        rcases (rename_eq_ok_iff r r' (.enumeration i) name).mp h with ⟨names, _, rfl⟩
        exact r.setEnum_eq_self i _ hi
    | document doc =>
        rw [revise, Except.ok.injEq] at h
        rw [← h]
        exact r.setEnum_eq_self i _ hi
  · have hnone : (r.struct address.struct).fields.bind (·[address.position]?) = none := by
      rwa [heading?, Option.map_eq_none_iff, fieldAt?] at hn
    cases revision with
    | rename name =>
        rw [revise, renameFieldAt, StructType.renameAt_of_none _ _ name hnone] at h
        simp only [bind, Except.bind, pure, Except.pure, Except.ok.injEq] at h
        rw [← h, r.setStruct_struct]
    | document doc =>
        rw [revise, documentFieldAt, StructType.documentAt_of_none _ _ doc hnone, Except.ok.injEq,
          r.setStruct_struct] at h
        exact h.symm

/-- A change that succeeds has revised the heading of its node, if there is one. -/
theorem perform_eq_ok (c : Change) (h : r.perform c = .ok r') :
    ∃ node, r.addressed c = .ok node ∧ ((r.heading? node = none ∧ r' = r) ∨
      ∃ old new, r.heading? node = some old ∧
        old.revise (r.scopeOf node) (r.taken node) c.revision = .ok new ∧
        r' = r.setHeading new node) := by
  rcases ha : r.addressed c with e | node
  · rw [perform_eq, ha] at h
    exact nomatch h
  · rw [r.perform_of_addressed c node ha] at h
    refine ⟨node, rfl, ?_⟩
    -- A place without a node can still be the target of an operation that succeeds.
    rcases hh : r.heading? node with _ | old
    · exact Or.inl ⟨rfl, r.eq_of_revise_of_none r' node _ hh h⟩
    · rw [r.revise_eq node _ old hh] at h
      rcases hnew : old.revise (r.scopeOf node) (r.taken node) c.revision with e | new
      · rw [hnew] at h
        exact nomatch h
      · rw [hnew, Except.map, Except.ok.injEq] at h
        exact Or.inr ⟨old, new, rfl, hnew, h.symm⟩

theorem skeleton_perform (c : Change) (h : r.perform c = .ok r') : r'.skeleton = r.skeleton := by
  rcases r.perform_eq_ok r' c h with ⟨node, _, ⟨_, rfl⟩ | ⟨old, new, _, _, rfl⟩⟩
  · rfl
  · exact r.skeleton_setHeading node new

/-! ### Changes one after the other -/

theorem after_of_ok (c : Change) (h : r.perform c = .ok r') : r.after c = r' := by
  rw [after, h]

theorem after_of_error (c : Change) (e : SchemaError) (h : r.perform c = .error e) :
    r.after c = r := by
  rw [after, h]

theorem undergo_cons (c : Change) (rest : List Change) :
    r.undergo (c :: rest) = (r.after c).undergo rest :=
  List.foldl_cons

theorem skeleton_after (c : Change) : (r.after c).skeleton = r.skeleton := by
  rcases h : r.perform c with e | r'
  · rw [r.after_of_error c e h]
  · rw [r.after_of_ok r' c h, r.skeleton_perform r' c h]

/-! ### Names within a scope -/

theorem carriesAt_type_iff (h : Handle) (name : String) :
    r.CarriesAt (.type h) name ↔ r.Holds h ∧ (r.namesOf h).Carries name := by
  unfold CarriesAt
  simp only [r.heading?_type_iff]
  constructor
  · rintro ⟨_, ⟨hh, rfl⟩, hc⟩
    exact ⟨hh, hc⟩
  · exact fun ⟨hh, hc⟩ => ⟨_, ⟨hh, rfl⟩, hc⟩

theorem carriesAt_field_iff (address : FieldAddress) (name : String) :
    r.CarriesAt (.field address) name ↔
      ∃ field, r.fieldAt? address = some field ∧ field.names.Carries name := by
  unfold CarriesAt
  simp only [r.heading?_field_iff]
  constructor
  · rintro ⟨_, ⟨field, hf, rfl⟩, hc⟩
    exact ⟨field, hf, hc⟩
  · exact fun ⟨field, hf, hc⟩ => ⟨_, ⟨field, hf, rfl⟩, hc⟩

theorem carriesAt_getElem_iff (fields : List Field) (i k : Nat)
    (hf : (r.struct i).fields = some fields) (hk : k < fields.length) (name : String) :
    r.CarriesAt (.field ⟨i, k⟩) name ↔ fields[k].names.Carries name := by
  simp only [r.carriesAt_field_iff, fieldAt?, hf, Option.bind_some, List.getElem?_eq_getElem hk,
    Option.some.injEq, exists_eq_left']

/-- A name that a field carries is a name in the field list of its struct. -/
theorem exists_fields_of_carriesAt (address : FieldAddress) (name : String)
    (h : r.CarriesAt (.field address) name) : ∃ (fields : List Field) (hk : address.position <
      fields.length), (r.struct address.struct).fields = some fields ∧
        fields[address.position].names.Carries name := by
  rcases (r.carriesAt_field_iff address name).mp h with ⟨field, hfield, hc⟩
  rcases (r.fieldAt?_eq_some_iff address field).mp hfield with ⟨fields, hf, hposition⟩
  rcases List.getElem?_eq_some_iff.mp hposition with ⟨hk, rfl⟩
  exact ⟨fields, hk, hf, hc⟩

/-- No name is carried twice within a scope. -/
theorem Tidy.eq_of_carriesAt (ht : r.Tidy) (node other : Node) (name : String)
    (hs : node.SameScope other) (hc : r.CarriesAt node name) (hc' : r.CarriesAt other name) :
    other = node := by
  rcases node with h | ⟨i, k⟩ <;> rcases other with h' | ⟨j, l⟩
  · rw [carriesAt_type_iff] at hc hc'
    rw [ht.distinct h' h name hc'.1 hc.1 hc'.2 hc.2]
  · exact hs.elim
  · exact hs.elim
  · -- Both are fields of the one struct.
    have hj : j = i := hs
    subst hj
    rcases r.exists_fields_of_carriesAt _ name hc with ⟨fields, hk, hf, hn⟩
    rcases r.exists_fields_of_carriesAt _ name hc' with ⟨fields', hl, hf', hn'⟩
    simp only at hk hl hf hf' hn hn'
    rw [hf, Option.some.injEq] at hf'
    subst hf'
    have hd := (fieldsDistinct_iff fields).mp (ht.fields j fields hf)
    rw [hd l k hl hk name hn' hn]

/-- A name is taken if another node of the scope carries it. -/
theorem Tidy.taken_eq_false_iff (ht : r.Tidy) (node : Node) (heading : Heading)
    (hh : r.heading? node = some heading) (name : String) : r.taken node name = false ↔
      ∀ other, node.SameScope other → r.CarriesAt other name → other = node := by
  -- For types the lookup in the registry tells, for fields the one in their struct.
  rcases node with h | ⟨i, k⟩
  · rw [taken, r.takenElsewhere_eq_false_iff h ht.distinct name]
    constructor
    · rintro hall (h' | address) hs hc
      · rw [carriesAt_type_iff] at hc
        rw [hall h' hc.1 hc.2]
      · exact hs.elim
    · intro hall h' hholds hc
      have hother := hall (.type h') trivial ((r.carriesAt_type_iff h' name).mpr ⟨hholds, hc⟩)
      exact Node.type.inj hother
  · rcases (r.heading?_field_iff _ heading).mp hh with ⟨field, hfield, _⟩
    rcases (r.fieldAt?_eq_some_iff _ field).mp hfield with ⟨fields, hf, hposition⟩
    have hk : k < fields.length := (List.getElem?_eq_some_iff.mp hposition).1
    simp only at hf
    rw [taken, takenBeside, hf, Option.bind_some,
      StructType.taken_eq_false_iff k fields hk (ht.fields i fields hf) name]
    constructor
    · rintro hall (h' | ⟨j, l⟩) hs hc
      · exact hs.elim
      · have hj : j = i := hs
        subst hj
        rcases r.exists_fields_of_carriesAt _ name hc with ⟨fields', hl, hf', hn⟩
        simp only at hl hf' hn
        rw [hf, Option.some.injEq] at hf'
        subst hf'
        rw [hall l hl hn]
    · intro hall l hl hc
      have hother := hall (.field ⟨i, l⟩) rfl
        ((r.carriesAt_getElem_iff fields i l hf hl name).mpr hc)
      rw [Node.field.injEq, FieldAddress.mk.injEq] at hother
      exact hother.2

/-- A node that is there can be given any name that no other node of its scope carries. -/
theorem Tidy.exists_revise_rename_iff (ht : r.Tidy) (node : Node) (heading : Heading)
    (hh : r.heading? node = some heading) (name : String) :
    (∃ r', r.revise node (.rename name) = .ok r') ↔
      ∀ other, node.SameScope other → r.CarriesAt other name → other = node := by
  have hrevise : (∃ r', r.revise node (.rename name) = .ok r') ↔
      ∃ new, heading.revise (r.scopeOf node) (r.taken node) (.rename name) = .ok new := by
    rw [r.revise_eq node _ heading hh]
    rcases heading.revise (r.scopeOf node) (r.taken node) (.rename name) with e | new
    · simp only [Except.map, reduceCtorEq, exists_false]
    · simp only [Except.map, Except.ok.injEq, exists_eq']
  rw [hrevise, heading.exists_revise_rename_iff, ← ht.taken_eq_false_iff r node heading hh name]
  constructor
  · rintro (hown | hfree)
    · -- No other node can have a name that the node has itself.
      rw [ht.taken_eq_false_iff r node heading hh name]
      exact fun other hs hc => ht.eq_of_carriesAt r node other name hs ⟨heading, hh, hown⟩ hc
    · exact hfree
  · exact Or.inr

/-! ### Registries that there can be -/

theorem Built.revise (node : Node) (revision : Revision) (hr : r.Built)
    (h : r.revise node revision = .ok r') : r'.Built := by
  rcases node with handle | address <;> rcases revision with name | doc
  · exact .rename r r' handle name hr h
  · rw [Registry.revise, Except.ok.injEq] at h
    exact h ▸ .document r handle doc hr
  · exact .renameFieldAt r r' _ _ name hr h
  · rw [Registry.revise, Except.ok.injEq] at h
    exact h ▸ .documentFieldAt r _ _ doc hr

theorem Built.after (c : Change) (hr : r.Built) : (r.after c).Built := by
  rcases h : r.perform c with e | r'
  · rwa [r.after_of_error c e h]
  · rw [r.after_of_ok r' c h]
    rcases r.perform_eq_ok r' c h with ⟨node, ha, _⟩
    rw [r.perform_of_addressed c node ha] at h
    exact hr.revise r r' node _ h

theorem Built.undergo (changes : List Change) (hr : r.Built) : (r.undergo changes).Built := by
  induction changes generalizing r with
  | nil => exact hr
  | cons c rest ih => exact ih (r.after c) (hr.after r c)

end

end Registry

end Schemata
