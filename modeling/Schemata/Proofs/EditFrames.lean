import Schemata.Proofs.Avro.Expressible
import Schemata.Proofs.Lineage
import Schemata.Proofs.Workspaces

/-!
# What an Edit Leaves Alone

An edit by path touches one heading and nothing else.

The node that an edit is about may be held by many fields, may be the root struct
reached again through a cycle, or may be the very struct through which the path
goes. None of this matters, for by the time something is changed the path has
come down to a node (`Registry.target`), and a change at a node replaces the
heading of that node (`Registry.perform_eq_ok`). The skeleton stays, the other
headings stay, and so do the lookups in all other structs. Only the new name of a
renaming may be found where it was not found before.

An edit that fails does so before anything is changed. There are three ways to
fail that have to do with the path alone: it is empty where a field is asked for,
it goes on behind a field that holds no struct, or it ends at a type that has no
name.

## Main definitions

* `Node.struct?`: The struct that a node belongs to.
* `Heading.RevisedTo`: Either the names have been revised, or the documentation.

## Theorems

* `Registry.edit_eq_ok_target`: An edit that succeeds has replaced one heading.
* `Registry.struct_setHeading_other`: No other struct is touched.
* `Registry.Built.get_edit`, `Registry.Built.position_edit`: Lookups of other names
  come out as before.
* `Registry.edit_of_target_error`: What is not found is not edited.
* `Registry.target_through_other`, `Registry.target_of_unnamed`: Paths at whose end
  nothing is found.
* `Registry.edit_frame`: All of this for an edit.
-/

namespace Schemata

/-- The struct that a node belongs to: itself, or the one that has the field. -/
def Node.struct? : Node → Option Nat
  | .type (.struct i) => some i
  | .type (.enumeration _) => none
  | .field address => some address.struct

/-- One heading is the other under a new name, or with a new documentation. -/
def Heading.RevisedTo (old new : Heading) : Revision → Prop
  | .rename name => new.documentation = old.documentation ∧ new.names.name = name ∧
      ∀ x, new.names.Carries x ↔ old.names.Carries x ∨ x = name
  | .document documentation => new.names = old.names ∧ new.documentation = documentation

theorem Heading.revisedTo_of_revise (old new : Heading) {scope : Scope} {taken : String → Bool}
    {revision : Revision} (h : old.revise scope taken revision = .ok new) :
    old.RevisedTo new revision := by
  cases revision with
  | rename name =>
      have hrename := (old.revise_rename_eq_ok_iff new scope taken name).mp h
      exact ⟨hrename.2, Names.name_of_rename hrename.1, Names.carries_rename hrename.1⟩
  | document doc =>
      rw [revise, Except.ok.injEq] at h
      rw [← h]
      exact ⟨rfl, rfl⟩

namespace Registry

section

variable (r r' : Registry) (root : Nat) (path : FieldPath) (edit : Edit)

/-! ### Edits that succeed -/

/-- A heading is replaced, and every struct that the node does not belong to stays. -/
theorem struct_setHeading_other (node : Node) (heading : Heading) (j : Nat)
    (hj : node.struct? ≠ some j) : (r.setHeading heading node).struct j = r.struct j := by
  rcases node with (i | i) | address
  · have hne : j ≠ i := fun he => hj (by rw [he, Node.struct?])
    rw [setHeading, r.struct_setStruct_other i j _ hne]
  · rfl
  · have hne : j ≠ address.struct := fun he => hj (by rw [he, Node.struct?])
    rw [setHeading, r.struct_setStruct_other _ j _ hne]

/-- An edit that succeeds has replaced the heading at the end of its path. -/
theorem edit_eq_ok_target (h : r.edit root path edit = .ok r') :
    ∃ node, r.target root path edit = .ok node ∧ ((r.heading? node = none ∧ r' = r) ∨
      ∃ old new, r.heading? node = some old ∧ old.RevisedTo new edit.revision ∧
        r' = r.setHeading new node) := by
  rcases r.perform_eq_ok r' (.edit root path edit) h with ⟨node, ha, hcase⟩
  refine ⟨node, ha, hcase.imp id ?_⟩
  rintro ⟨old, new, hh, hnew, hr'⟩
  exact ⟨old, new, hh, old.revisedTo_of_revise new hnew, hr'⟩

/-- A name that the edit does not give is carried where it was carried. -/
theorem carriesAt_edit_iff (h : r.edit root path edit = .ok r') (node : Node) (x : String)
    (hx : edit.revision.newName? ≠ some x) : r'.CarriesAt node x ↔ r.CarriesAt node x := by
  rcases r.edit_eq_ok_target r' root path edit h with
    ⟨target, _, ⟨_, rfl⟩ | ⟨old, new, hh, hrevised, rfl⟩⟩
  · exact Iff.rfl
  unfold CarriesAt
  -- Only the target has another heading, and there only the new name is new.
  by_cases hn : node = target
  · rw [hn, r.heading?_setHeading_self target old new hh, hh]
    simp only [Option.some.injEq, exists_eq_left']
    rcases hr : edit.revision with name | doc
    · rw [hr] at hrevised hx
      have hne : x ≠ name := fun he => hx (by rw [he, Revision.newName?])
      rw [hrevised.2.2 x]
      exact or_iff_left hne
    · rw [hr] at hrevised
      rw [hrevised.1]
  · rw [r.heading?_setHeading_other target node new hn]

/-- Names of types that the edit does not give stand for what they stood for. -/
theorem Built.get_edit (hr : r.Built) (h : r.edit root path edit = .ok r') (x : String)
    (hx : edit.revision.newName? ≠ some x) : r'.get x = r.get x := by
  have ht := hr.tidy
  have ht' := (hr.edit r r' root path edit h).tidy
  have hok : ∀ handle, r'.get x = .ok handle ↔ r.get x = .ok handle := by
    intro handle
    rw [r'.get_eq_ok_iff ht'.distinct x handle, r.get_eq_ok_iff ht.distinct x handle,
      ← carriesAt_type_iff, ← carriesAt_type_iff]
    exact r.carriesAt_edit_iff r' root path edit h (.type handle) x hx
  -- A lookup that fails says no more than what was looked for.
  have herror : ∀ (q : Registry) e, q.get x = .error e → e = .unknownType x := fun q e he =>
    ((q.get_eq_error_iff x e).mp he).1
  rcases hg : r.get x with e | handle
  · rcases hg' : r'.get x with e' | handle'
    · rw [herror r e hg, herror r' e' hg']
    · rw [(hok handle').mp hg'] at hg
      exact nomatch hg
  · exact (hok handle).mpr hg

/-- Names of fields that the edit does not give stand for what they stood for. -/
theorem Built.position_edit (hr : r.Built) (h : r.edit root path edit = .ok r') (i place : Nat)
    (x : String) (hx : edit.revision.newName? ≠ some x) :
    (r'.struct i).position x = .ok place ↔ (r.struct i).position x = .ok place := by
  rw [(hr.edit r r' root path edit h).tidy.position_eq_ok_iff r' ⟨i, place⟩ x,
    hr.tidy.position_eq_ok_iff r ⟨i, place⟩ x]
  exact r.carriesAt_edit_iff r' root path edit h _ x hx

/-- All but the node at the end of the path is left as it was, and that node is revised. -/
theorem exists_target_of_edit (h : r.edit root path edit = .ok r') :
    ∃ node, r.target root path edit = .ok node ∧ r'.skeleton = r.skeleton ∧
      (∀ other, other ≠ node → r'.heading? other = r.heading? other) ∧
      (∀ old, r.heading? node = some old →
        ∃ new, r'.heading? node = some new ∧ old.RevisedTo new edit.revision) ∧
      ∀ j name, node.struct? ≠ some j →
        (r'.struct j).getField name = (r.struct j).getField name := by
  rcases r.edit_eq_ok_target r' root path edit h with
    ⟨node, ht, ⟨hnone, rfl⟩ | ⟨old, new, hh, hrevised, rfl⟩⟩
  · -- Nothing is at the node, so nothing changes.
    refine ⟨node, ht, rfl, fun _ _ => rfl, fun old hold => ?_, fun _ _ _ => rfl⟩
    rw [hnone] at hold
    exact nomatch hold
  · refine ⟨node, ht, r.skeleton_setHeading node new,
      fun other ho => r.heading?_setHeading_other node other new ho, fun old' hold => ?_,
      fun j name hj => by rw [r.struct_setHeading_other node new j hj]⟩
    rw [hh, Option.some.injEq] at hold
    exact ⟨new, r.heading?_setHeading_self node old new hh, hold ▸ hrevised⟩

/-! ### Edits that fail -/

/-- What is not found is not edited. -/
theorem edit_of_target_error (e : SchemaError) (h : r.target root path edit = .error e) :
    r.edit root path edit = .error e := by
  have hperform := r.perform_eq (.edit root path edit)
  rw [perform, addressed, h] at hperform
  exact hperform

/-- Where no field is found, there is no type of a field either. -/
theorem target_of_locate_error (e : SchemaError) (hne : path.segments ≠ [])
    (h : r.locate root path = .error e) : r.target root path edit = .error e := by
  -- Only the root names a type without a field.
  have hroot : path.isRoot = false := by
    rw [FieldPath.isRoot, List.isEmpty_eq_false_iff]
    exact hne
  have hnamed : r.resolveNamed root path = .error e := by
    rw [resolveNamed, resolve, hroot, h]
    rfl
  cases edit with
  | renameField name | documentField text =>
      rw [target, h]
      rfl
  | renameType name | documentType text =>
      rw [target, hnamed]
      rfl

/-- The path gets to a field that holds no struct, and has to go on. -/
theorem target_through_other (front back : List String) (segment : String) (i : Nat)
    (field : Field) (hsegments : path.segments = front ++ segment :: back) (hback : back ≠ [])
    (hw : r.walk path root front = .ok i) (hf : (r.struct i).getField segment = .ok field)
    (ht : ∀ j, field.type ≠ .named (.struct j)) :
    r.target root path edit = .error (.state (.notAStruct segment path.text)) := by
  have hne : path.segments ≠ [] := by
    rw [hsegments]
    exact List.append_ne_nil_of_right_ne_nil _ (List.cons_ne_nil _ _)
  -- The field is not the last one, so the walk to the last struct has to go on behind it.
  have hlast : path.segments.dropLast = front ++ segment :: back.dropLast := by
    rw [hsegments, List.dropLast_append_of_ne_nil (List.cons_ne_nil _ _),
      List.dropLast_cons_of_ne_nil hback]
  have hwalk : r.walk path root path.segments.dropLast
      = .error (.state (.notAStruct segment path.text)) := by
    rw [hlast, r.walk_append path root i front _ hw]
    exact r.walk_cons_of_other path i segment _ field hf ht
  refine r.target_of_locate_error root path edit _ hne ?_
  rw [locate, List.getLast?_eq_some_getLast hne]
  simp only [hwalk, bind, Except.bind]

/-- A type without a name cannot be edited. -/
theorem target_of_unnamed (t : Ty) (hedit : (∃ name, edit = .renameType name) ∨
    ∃ text, edit = .documentType text) (hr : r.resolve root path = .ok t)
    (ht : ∀ handle, t ≠ .named handle) :
    r.target root path edit = .error (.unnamed (r.display t) path.text) := by
  have hnamed : r.resolveNamed root path = .error (.unnamed (r.display t) path.text) := by
    rw [resolveNamed, hr]
    simp only [bind, Except.bind]
  rcases hedit with ⟨name, rfl⟩ | ⟨text, rfl⟩
  · rw [target, hnamed]
    rfl
  · rw [target, hnamed]
    rfl

/-- The empty path is about no field. -/
theorem target_of_empty (hempty : path.segments = []) (hedit : (∃ name, edit = .renameField name) ∨
    ∃ text, edit = .documentField text) :
    r.target root path edit = .error (.state .emptyPath) := by
  have hlocate : r.locate root path = .error (.state .emptyPath) := by
    rw [locate, hempty]
    rfl
  rcases hedit with ⟨name, rfl⟩ | ⟨text, rfl⟩
  · rw [target, hlocate]
    rfl
  · rw [target, hlocate]
    rfl

/-- An edit that fails leaves its workspace as it was. One that succeeds has renamed or documented
    the node at the end of its path, and nothing else: no other heading, nothing of the skeleton,
    no lookup in another struct, and no lookup of a name but the new one. It fails where the path
    ends at a type without a name or at no field, and where it goes on behind a field that holds
    no struct. -/
theorem edit_frame :
    (∀ w label e, w.registries.lookup label = some r → r.edit root path edit = .error e →
      Working.update label (·.edit root path edit) w = .error e w) ∧
    (∀ r', r.edit root path edit = .ok r' → ∃ node, r.target root path edit = .ok node ∧
      r'.skeleton = r.skeleton ∧
      (∀ other, other ≠ node → r'.heading? other = r.heading? other) ∧
      (∀ old, r.heading? node = some old →
        ∃ new, r'.heading? node = some new ∧ old.RevisedTo new edit.revision) ∧
      (∀ j name, node.struct? ≠ some j →
        (r'.struct j).getField name = (r.struct j).getField name) ∧
      (r.Built → ∀ x, edit.revision.newName? ≠ some x → r'.get x = r.get x ∧
        ∀ j place, (r'.struct j).position x = .ok place ↔ (r.struct j).position x = .ok place)) ∧
    (∀ t, (∃ name, edit = .renameType name) ∨ (∃ text, edit = .documentType text) →
      r.resolve root path = .ok t → (∀ handle, t ≠ .named handle) →
      r.edit root path edit = .error (.unnamed (r.display t) path.text)) ∧
    (∀ front segment back i field, path.segments = front ++ segment :: back → back ≠ [] →
      r.walk path root front = .ok i → (r.struct i).getField segment = .ok field →
      (∀ j, field.type ≠ .named (.struct j)) →
      r.edit root path edit = .error (.state (.notAStruct segment path.text))) ∧
    (path.segments = [] →
      (∃ name, edit = .renameField name) ∨ (∃ text, edit = .documentField text) →
      r.edit root path edit = .error (.state .emptyPath)) := by
  refine ⟨fun w label e hl he => Working.update_of_error w label r _ e hl he, ?_, ?_, ?_, ?_⟩
  · intro r' h
    rcases r.exists_target_of_edit r' root path edit h with
      ⟨node, ht, hskeleton, hother, hself, hstruct⟩
    refine ⟨node, ht, hskeleton, hother, hself, hstruct, fun hr x hx => ?_⟩
    exact ⟨hr.get_edit r r' root path edit h x hx,
      fun j place => hr.position_edit r r' root path edit h j place x hx⟩
  -- In the other cases the path ends at nothing that could be edited.
  · intro t hedit hresolve ht
    exact r.edit_of_target_error root path edit _
      (r.target_of_unnamed root path edit t hedit hresolve ht)
  · intro front segment back i field hsegments hback hw hf ht
    exact r.edit_of_target_error root path edit _
      (r.target_through_other root path edit front back segment i field hsegments hback hw hf ht)
  · intro hempty hedit
    exact r.edit_of_target_error root path edit _ (r.target_of_empty root path edit hempty hedit)

end

end Registry

open Sample

/-- The path goes through the next item back to the struct where it started. -/
theorem edit_frame_items : (∃ r', items.edit 0 ⟨["next", "price"]⟩ (.renameField "cost") = .ok r' ∧
      r'.skeleton = items.skeleton ∧ r'.get "Colour" = items.get "Colour") ∧
    items.edit 0 ⟨["price", "unit"]⟩ (.renameField "cost")
      = .error (.state (.notAStruct "price" "price.unit")) ∧
    items.edit 0 ⟨["price"]⟩ (.renameType "Cost")
      = .error (.unnamed (items.display (.decimal money)) "price") := by
  refine ⟨⟨_, rfl, ?_⟩, ?_, ?_⟩
  · rcases (Registry.edit_frame items 0 ⟨["next", "price"]⟩ (.renameField "cost")).2.1 _ rfl with
      ⟨node, _, hskeleton, _, _, _, hlookup⟩
    exact ⟨hskeleton, (hlookup items_built "Colour" (by decide)).1⟩
  · exact (Registry.edit_frame items 0 ⟨["price", "unit"]⟩ (.renameField "cost")).2.2.2.1
      [] "price" ["unit"] 0 _ rfl (by decide) rfl rfl fun _ => Ty.noConfusion
  · exact (Registry.edit_frame items 0 ⟨["price"]⟩ (.renameType "Cost")).2.2.1
      (.decimal money) (Or.inl ⟨"Cost", rfl⟩) rfl fun _ => Ty.noConfusion

end Schemata
