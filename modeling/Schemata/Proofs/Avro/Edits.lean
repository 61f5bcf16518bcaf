import Schemata.Proofs.Avro.Expressible
import Schemata.Proofs.Registry.Paths

/-!
# Edits and Round Trips

Which edits keep a graph in a form that an export can tell in full.

Fields can be called and documented in any way, and so can the documentation of
types be replaced: the walk of the export stays what it was, with the same
references (`walk_of_sameShape`).

The name of a type is another matter. The old name becomes an alias, and
aliases are read within the namespace of the new name. A name without a dot
therefore gets lost when its type moves into a namespace. Besides that, the
new name may get in the way of a reference. Nothing else can happen
(`roundTrips_edit`).

## Main definitions

* `Edit.Harmless`: What an edit must heed.

## Theorems

* `Avro.faithful_of_sameShape`: What fields are called does not matter.
* `Names.fit_rename_iff`: When aliases still fit after a renaming.
* `roundTrips_edit`: Exactly the harmless edits keep round trips.
-/

namespace Schemata

/-! ### Names -/

/-- The aliases of a renamed thing fit unless a name without a dot is left behind. -/
theorem Names.fit_rename_iff {names names' : Names} {name : String} {scope : Scope} {taken : Bool}
    (h : names.rename name scope taken = .ok names') (hf : names.Fit) :
    names'.Fit ↔ (hasDot name = true → hasDot names.name = true) := by
  rcases rename_eq_ok_iff.mp h with ⟨rfl, rfl⟩ | ⟨_, _, hn, ha⟩
  · exact ⟨fun _ => id, fun _ => hf⟩
  rw [Fit, hn]
  -- The old name is the only alias that is new.
  constructor
  · intro hfit hdot
    refine hfit hdot names.name ?_
    rw [ha, NameSet.mem_insert]
    exact Or.inl rfl
  · intro hold hdot alias' hm
    rw [ha, NameSet.mem_insert, NameSet.mem_erase] at hm
    rcases hm with rfl | ⟨hm, _⟩
    · exact hold hdot
    · exact hf (hold hdot) alias' hm

namespace Registry

/-! ### Registries of the same shape -/

namespace SameShape

variable (r r' : Registry)

/-- The fields of one registry are used like those of the other. -/
theorem fields_of (h : SameShape r r') (i : Nat) (fields' : List Field)
    (hf : (r'.struct i).fields = some fields') :
    ∃ fields, (r.struct i).fields = some fields ∧ List.Forall₂ SameUse fields fields' := by
  have hrel := h.fields i
  rw [hf] at hrel
  rcases hs : (r.struct i).fields with _ | fields
  · rw [hs] at hrel
    cases hrel
  · rw [hs] at hrel
    cases hrel with
    | some hall => exact ⟨fields, rfl, hall⟩

theorem types_eq (fields fields' : List Field) (h : List.Forall₂ SameUse fields fields') :
    fields'.map Field.type = fields.map Field.type := by
  induction h with
  | nil => rfl
  | cons huse _ ih => rw [List.map_cons, List.map_cons, huse.2.1, ih]

theorem sameWays (h : SameShape r r') : SameWays r' r := by
  intro i fields' hf
  rcases h.fields_of _ _ i fields' hf with ⟨fields, hf, hall⟩
  exact ⟨fields, hf, (types_eq fields fields' hall).symm⟩

end SameShape

end Registry

namespace Avro

open Registry

section

variable (r r' : Registry)

theorem writable_of_sameUse (field field' : Field) (h : SameUse field field')
    (hw : field.Writable) : field'.Writable := by
  rcases h with ⟨hcardinality, htype, hdefault⟩
  rw [Field.Writable, htype, hcardinality, hdefault]
  exact hw

/-- The walk of an export meets the same types, whatever fields and types are said to be. -/
theorem walk_of_sameShape (h : SameShape r r') (space : Option String) (written written' : Written)
    (ts : List Ty) (es : List Json) (refs : List Reference)
    (hwalk : Walk r' space written ts es refs written') :
    ∃ es, Walk r space written ts es refs written' := by
  have hname : ∀ h', r.nameOf h' = r'.nameOf h' := fun h' => congrArg Names.name (h.names h').symm
  -- On the walk, which looks at names and at types of fields. Only a record has to be taken apart.
  induction hwalk with
  | nil => exact ⟨[], .nil _ _⟩
  | scalar _ kind ht _ ih =>
      rcases ih with ⟨es, rest⟩
      exact ⟨_, .scalar _ kind ht rest⟩
  | decimal _ type ht _ ih =>
      rcases ih with ⟨es, rest⟩
      exact ⟨_, .decimal _ type ht rest⟩
  | reference _ handle ht hw _ ih =>
      rcases ih with ⟨es, rest⟩
      exact ⟨_, .reference _ handle ht hw rest⟩
  | enumeration _ i ht hw _ ih =>
      rcases ih with ⟨es, rest⟩
      exact ⟨_, .enumeration _ i ht hw rest⟩
  | struct _ _ _ _ i fields' ht hw hf _ _ ihb ihr =>
      rcases h.fields_of _ _ i fields' hf with ⟨fields, hf, hall⟩
      rcases ihb with ⟨docs, body⟩
      rcases ihr with ⟨es, rest⟩
      rw [SameShape.types_eq fields fields' hall] at body
      have hspace : namespaceOf? (r'.struct i).name = namespaceOf? (r.struct i).name :=
        congrArg namespaceOf? (hname (.struct i)).symm
      rw [hspace] at body
      exact ⟨_, .struct _ _ _ _ i fields ht hw hf body rest⟩

/-- What fields are called, and what fields and types are said to be, does not matter. -/
theorem faithful_of_sameShape (root : Ty) (h : SameShape r r') (hf : Faithful r root) :
    Faithful r' root := by
  -- Nothing new can be reached, and what can be is written in the same order.
  have hreach : ∀ t, r'.Reaches root t → r.Reaches root t :=
    fun t ht => ht.mono r' r (h.sameWays _ _) root t
  refine ⟨⟨⟨fun handle hh => ?_, fun i hi => ?_⟩, hf.plain.start, fun i fields' hi hf' => ?_,
    fun handle hh => ?_⟩, fun e refs final hwalk ref hm => ?_⟩
  · exact (h.holds handle).mpr (hf.plain.complete.held handle (hreach _ hh))
  · rcases hf.plain.complete.assigned i (hreach _ hi) with ⟨fields, hs⟩
    have hrel := h.fields i
    rw [hs] at hrel
    rcases hs' : (r'.struct i).fields with _ | fields'
    · rw [hs'] at hrel
      cases hrel
    · exact ⟨fields', rfl⟩
  · rcases h.fields_of _ _ i fields' hf' with ⟨fields, hs, hall⟩
    have hown := hf.plain.fields i fields (hreach _ hi) hs
    clear hs hf'
    induction hall with
    | nil => exact fun field hm => absurd hm List.not_mem_nil
    | cons huse _ ih =>
        rw [List.forall_mem_cons] at hown ⊢
        exact ⟨writable_of_sameUse _ _ huse hown.1, ih hown.2⟩
  · rw [h.names handle]
    exact hf.plain.names handle (hreach _ hh)
  · rcases walk_of_sameShape r r' h none [] final [root] [e] refs hwalk with ⟨es, hwalk'⟩
    have hlen := hwalk'.length_eq
    rw [List.length_singleton] at hlen
    rcases List.length_eq_one_iff.mp hlen.symm with ⟨e', rfl⟩
    have hresolves := hf.uncaptured e' refs final hwalk' ref hm
    unfold Reference.Resolves Registry.nameOf at hresolves ⊢
    simp only [h.names]
    exact hresolves

section

variable (root : Ty) (h : Handle) (names : Names)

theorem reaches_setNames_iff (t : Ty) : (r.setNames h names).Reaches root t ↔ r.Reaches root t :=
  ⟨fun ht => ht.mono _ r (fun i fields hi => ⟨fields, by rw [← hi, fields_setNames], rfl⟩) root t,
    fun ht => ht.mono r _ (fun i fields hi => ⟨fields, by rw [← hi, fields_setNames], rfl⟩) root t⟩

theorem complete_setNames (hc : Complete r root) : Complete (r.setNames h names) root where
  held handle hr := by
    rw [reaches_setNames_iff] at hr
    exact (holds_setNames r h handle names).mpr (hc.held handle hr)
  assigned i hi := by
    rw [reaches_setNames_iff] at hi
    rw [fields_setNames]
    exact hc.assigned i hi

/-- A renaming keeps everything but the names of one type. -/
theorem faithful_setNames_iff (hf : Faithful r root) (hh : r.Reaches root (.named h)) :
    Faithful (r.setNames h names) root ↔ names.Fit ∧ Uncaptured (r.setNames h names) root := by
  -- Reachability and fields stay, so only what is said of names is left.
  have hself := namesOf_setNames_self r h names (hf.plain.complete.held h hh)
  constructor
  · intro hf'
    refine ⟨?_, hf'.uncaptured⟩
    rw [← hself]
    exact hf'.plain.names h ((reaches_setNames_iff r root h names _).mpr hh)
  · rintro ⟨hfit, hu⟩
    refine ⟨⟨complete_setNames r root h names hf.plain.complete, hf.plain.start,
      fun i fields hi hs => ?_, fun handle hr => ?_⟩, hu⟩
    · rw [reaches_setNames_iff] at hi
      rw [fields_setNames] at hs
      exact hf.plain.fields i fields hi hs
    · rw [reaches_setNames_iff] at hr
      by_cases he : handle = h
      · rw [he, hself]
        exact hfit
      · rw [namesOf_setNames_other r h handle names he]
        exact hf.plain.names handle hr

end

end

end Avro

open Avro Registry

/-- What an edit must heed for the graph to come back the same. A type may not move into a
    namespace if its name has no dot, for the old name would be read as a name within that
    namespace. And the new name may not get in the way of a reference. -/
def Edit.Harmless (edit : Edit) (r r' : Registry) (root : Nat) (path : FieldPath) : Prop :=
  ∀ name h, edit = .renameType name → r.resolveNamed root path = .ok h →
    (hasDot name = true → hasDot (r.nameOf h) = true) ∧ Uncaptured r' (.named (.struct root))

/-- Only the renaming of a type changes more than what fields and types are said to be. -/
theorem sameShape_edit (r r' : Registry) (root : Nat) (path : FieldPath) (edit : Edit)
    (h : r.edit root path edit = .ok r') (hne : ∀ name, edit ≠ .renameType name) :
    SameShape r r' := by
  rcases edit_eq_ok r r' root path edit h with ⟨name, address, _, _, hdone⟩ |
    ⟨name, handle, he, _, _⟩ | ⟨text, address, _, _, rfl⟩ | ⟨text, handle, _, _, rfl⟩
  · exact sameShape_renameFieldAt r r' _ _ name hdone
  · exact absurd he (hne name)
  · exact sameShape_documentFieldAt r _ _ _
  · exact sameShape_document r handle _

/-- The renaming of a type gives other names to the type at the end of the path. -/
theorem rename_of_edit (r r' : Registry) (root : Nat) (path : FieldPath) (name : String)
    (h : r.edit root path (.renameType name) = .ok r') :
    ∃ handle names, r.resolveNamed root path = .ok handle ∧
      (r.namesOf handle).rename name .types (r.takenElsewhere handle name) = .ok names ∧
      r' = r.setNames handle names := by
  rcases edit_eq_ok r r' root path _ h with ⟨_, _, he, _⟩ | ⟨name', handle, he, hresolve, hdone⟩ |
    ⟨_, _, he, _⟩ | ⟨_, _, he, _⟩
  · exact absurd he Edit.noConfusion
  · rcases (rename_eq_ok_iff r r' handle name').mp hdone with ⟨names, hnames, hr'⟩
    rw [← Edit.renameType.inj he] at hnames
    exact ⟨handle, names, hresolve, hnames, hr'⟩
  · exact absurd he Edit.noConfusion
  · exact absurd he Edit.noConfusion

/-- A graph that comes back the same is exported after every edit that succeeds, and the types
    that were renamed keep their old names. It comes back the same again exactly if the edit was
    harmless, as edits of fields and of documentation are. The handles that the root leads to are
    those of the registry, as there is nothing to export for others. -/
theorem roundTrips_edit (r r' : Registry) (root token token' : Nat) (path : FieldPath)
    (edit : Edit) (hr : r.Built)
    (hheld : ∀ h, r.Reaches (.named (.struct root)) (.named h) → r.Holds h)
    (hround : RoundTrips r (.named (.struct root)) token) (hedit : r.edit root path edit = .ok r') :
    (∃ e, toSchema r' (.named (.struct root)) = .ok e) ∧
      (RoundTrips r' (.named (.struct root)) token' ↔ edit.Harmless r r' root path) ∧
      ∀ name h, edit = .renameType name → r.resolveNamed root path = .ok h →
        r'.nameOf h = name ∧ (r'.namesOf h).Carries (r.nameOf h) := by
  have hf := (roundTrips_iff_faithful r _ token hr.tidy hheld).mp hround
  have htidy := (hr.edit r r' root path edit hedit).tidy
  -- Only the renaming of a type has to do with references and aliases.
  by_cases hrename : ∃ name, edit = .renameType name
  · rcases hrename with ⟨name, rfl⟩
    rcases rename_of_edit r r' root path name hedit with ⟨handle, names, hresolve, hnames, rfl⟩
    have hreach := reaches_of_resolveNamed r path root handle hresolve
    have hc := complete_setNames r _ handle names hf.plain.complete
    have hself := namesOf_setNames_self r handle names (hf.plain.complete.held handle hreach)
    rcases exists_export _ _ hc with ⟨e, refs, final, hwalk⟩
    refine ⟨⟨e, (toSchema_eq_ok_iff _ _ e).mpr ⟨refs, final, hwalk⟩⟩, ?_, fun name' h he hh => ?_⟩
    · rw [roundTrips_iff_faithful _ _ token' htidy hc.held,
        faithful_setNames_iff r _ handle names hf hreach,
        Names.fit_rename_iff hnames (hf.plain.names handle hreach)]
      constructor
      · intro hboth name' h he hh
        rw [hresolve, Except.ok.injEq] at hh
        rw [← hh, ← Edit.renameType.inj he]
        exact hboth
      · exact fun hharmless => hharmless name handle rfl hresolve
    · rw [hresolve, Except.ok.injEq] at hh
      rw [← hh, ← Edit.renameType.inj he, nameOf, hself]
      exact ⟨Names.name_of_rename hnames,
        (Names.carries_rename hnames _).mpr (Or.inl Names.carries_name)⟩
  · rw [not_exists] at hrename
    have hf' := faithful_of_sameShape r r' _ (sameShape_edit r r' root path edit hedit hrename) hf
    have hround' := (roundTrips_iff_faithful r' _ token' htidy hf'.plain.complete.held).mpr hf'
    rcases hround' with ⟨e, q, t, hexport, himport, hsame⟩
    exact ⟨⟨e, hexport⟩, ⟨fun _ name h he => absurd he (hrename name),
      fun _ => ⟨e, q, t, hexport, himport, hsame⟩⟩, fun name h he => absurd he (hrename name)⟩

open Sample

/-- An item keeps its round trip when its price is called cost. It loses it when the colour, whose
    name is in no namespace, moves into that of the item. -/
theorem roundTrips_edit_items :
    (∃ r', items.edit 0 ⟨["next", "price"]⟩ (.renameField "cost") = .ok r' ∧
      RoundTrips r' (.named (.struct 0)) 2) ∧
    ∃ r', items.edit 0 ⟨["next", "colour"]⟩ (.renameType "shop.Colour") = .ok r' ∧
      ¬ RoundTrips r' (.named (.struct 0)) 2 := by
  have hround : RoundTrips items (.named (.struct 0)) 1 := by decide +kernel
  have hedit := fun r' path edit => roundTrips_edit items r' 0 1 2 path edit items_built
    items_expressible.held hround
  constructor
  · -- A field has no names to capture.
    have hsome : (items.edit 0 ⟨["next", "price"]⟩ (.renameField "cost")).toOption.isSome
        = true := by decide +kernel
    rcases h : items.edit 0 ⟨["next", "price"]⟩ (.renameField "cost") with e | r'
    · rw [h] at hsome
      exact absurd hsome Bool.false_ne_true
    · exact ⟨r', rfl, (hedit r' _ _ h).2.1.mpr fun _ _ he => absurd he Edit.noConfusion⟩
  · -- The old name has no dot and the new one has, so the alias would be read in the namespace.
    have hsome : (items.edit 0 ⟨["next", "colour"]⟩ (.renameType "shop.Colour")).toOption.isSome
        = true := by
      decide +kernel
    rcases h : items.edit 0 ⟨["next", "colour"]⟩ (.renameType "shop.Colour") with e | r'
    · rw [h] at hsome
      exact absurd hsome Bool.false_ne_true
    · refine ⟨r', rfl, fun hback => ?_⟩
      have hcolour : items.resolveNamed 0 ⟨["next", "colour"]⟩ = .ok (.enumeration 0) := by rfl
      exact absurd (((hedit r' _ _ h).2.1.mp hback "shop.Colour" _ rfl hcolour).1 (by decide))
        (by decide)

end Schemata
