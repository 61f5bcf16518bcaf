import Schemata.Avro.Export
import Schemata.Proofs.Runs
import Schemata.Proofs.Registry.Reaches

/-!
# The Walk of an Export

The order in which an export meets the types of a graph, as a relation.

An export nests as deep as definitions do, so the function that makes it
counts down a depth, and what it has written is a state that it threads
through. Neither helps in a proof. `Walk` says the same without a depth: a
list of types is written as a list of documents, in order, and on the way some
named types are defined and others are referred to. One induction over a walk
goes through the types of a struct's fields and then on to what follows.

A use of a named type by its name is a `Reference`. It keeps what decides how
the name will be read: the namespace around it, and what has been defined in
front of it. The references of a walk are listed in the order in which they
are written.

`toSchema_eq_ok_iff` says that walks from a clean start are exactly the
exports that succeed. That the depth suffices rests on `unwritten`: a struct
that is defined is one fewer of those that are left.

## Main definitions

* `Avro.Reference`: A use of a named type by its name.
* `Avro.Walk`: A list of types and the documents that they are written as.
* `Avro.exportTypes`: The documents of some types, one after another.
* `Avro.unwritten`: How many structs are left to be defined.

## Theorems

* `Avro.walk_of_exportTypes`: What is exported is a walk.
* `Avro.exportTypes_of_walk`: A walk is exported, given depth enough.
* `toSchema_eq_ok_iff`: An export succeeds exactly along a walk.
* `Avro.Walk.suffix`, `Avro.Walk.nodup`: What is written stays, and once only.
* `Avro.Walk.reached`, `Avro.Walk.references`: What is written and what is
  referred to can be reached.
* `Avro.mem_of_reaches`: All that can be reached is written.
-/

namespace Schemata

namespace Avro

/-- A use of a named type by its name. -/
structure Reference where
  /-- The namespace that the name stands in. -/
  space : Option String
  /-- The named types that are defined in front of it. -/
  written : Written
  /-- The type that is meant. -/
  target : Handle
  deriving DecidableEq, Repr

/-- The types are written one after another as the documents, within a namespace and after
    what is written already. -/
inductive Walk (r : Registry) :
    Option String → Written → List Ty → List Json → List Reference → Written → Prop
  | nil (space : Option String) (written : Written) : Walk r space written [] [] [] written
  | scalar {space : Option String} {written written' : Written} {ts : List Ty} {es : List Json}
      {refs : List Reference} (t : Ty) (kind : ScalarKind) (ht : t.core = .scalar kind)
      (rest : Walk r space written ts es refs written') :
      Walk r space written (t :: ts) (scalarSchema kind :: es) refs written'
  | decimal {space : Option String} {written written' : Written} {ts : List Ty} {es : List Json}
      {refs : List Reference} (t : Ty) (type : DecimalType) (ht : t.core = .decimal type)
      (rest : Walk r space written ts es refs written') :
      Walk r space written (t :: ts) (decimalSchema type :: es) refs written'
  | reference {space : Option String} {written written' : Written} {ts : List Ty} {es : List Json}
      {refs : List Reference} (t : Ty) (h : Handle) (ht : t.core = .named h) (hw : h ∈ written)
      (rest : Walk r space written ts es refs written') :
      Walk r space written (t :: ts) (.string (r.nameOf h) :: es) (⟨space, written, h⟩ :: refs)
        written'
  | enumeration {space : Option String} {written written' : Written} {ts : List Ty}
      {es : List Json} {refs : List Reference} (t : Ty) (i : Nat)
      (ht : t.core = .named (.enumeration i)) (hw : .enumeration i ∉ written)
      (rest : Walk r space (.enumeration i :: written) ts es refs written') :
      Walk r space written (t :: ts) (enumSchema space (r.enumeration i) :: es) refs written'
  | struct {space : Option String} {written' : Written} {ts : List Ty} {es : List Json}
      {refs refs' : List Reference} (written written₁ : Written) (t : Ty) (docs : List Json)
      (i : Nat) (fields : List Field) (ht : t.core = .named (.struct i))
      (hw : .struct i ∉ written) (hf : (r.struct i).fields = some fields)
      (body : Walk r (namespaceOf? (r.struct i).name) (.struct i :: written)
        (fields.map Field.type) docs refs written₁)
      (rest : Walk r space written₁ ts es refs' written') :
      Walk r space written (t :: ts)
        (structSchema space (r.struct i) (fields.zipWith fieldSchema docs) :: es) (refs ++ refs')
        written'

/-- If types are those of some fields, the first is that of the first. -/
theorem exists_field_of_types {t : Ty} {ts : List Ty} {fields : List Field}
    (h : t :: ts = fields.map Field.type) :
    ∃ field rest, fields = field :: rest ∧ t = field.type ∧ ts = rest.map Field.type := by
  rcases fields with _ | ⟨field, rest⟩
  · exact absurd h (List.cons_ne_nil _ _)
  · rw [List.map_cons, List.cons.injEq] at h
    exact ⟨field, rest, rfl, h.1, h.2⟩

namespace Walk

variable {r : Registry} {space : Option String} {written written' : Written} {ts : List Ty}
  {es : List Json} {refs : List Reference}

theorem suffix (h : Walk r space written ts es refs written') : written <:+ written' := by
  induction h with
  | nil => exact List.suffix_refl _
  | scalar _ _ _ _ ih => exact ih
  | decimal _ _ _ _ ih => exact ih
  | reference _ _ _ _ _ ih => exact ih
  | enumeration _ _ _ _ _ ih => exact (List.suffix_cons _ _).trans ih
  | struct _ _ _ _ _ _ _ _ _ _ _ ihb ihr =>
      exact (List.suffix_cons _ _).trans (ihb.trans ihr)

theorem nodup (h : Walk r space written ts es refs written') (hn : written.Nodup) :
    written'.Nodup := by
  induction h with
  | nil => exact hn
  | scalar _ _ _ _ ih => exact ih hn
  | decimal _ _ _ _ ih => exact ih hn
  | reference _ _ _ _ _ ih => exact ih hn
  | enumeration _ _ _ hw _ ih => exact ih (List.nodup_cons.mpr ⟨hw, hn⟩)
  | struct _ _ _ _ _ _ _ hw _ _ _ ihb ihr =>
      exact ihr (ihb (List.nodup_cons.mpr ⟨hw, hn⟩))

/-- What the types lead to is written in the end, and so is what the fields of a struct lead
    to that is written on the way. -/
theorem covers (h : Walk r space written ts es refs written') :
    (∀ t ∈ ts, ∀ h, t.core = .named h → h ∈ written') ∧
      ∀ i fields, .struct i ∈ written' → .struct i ∉ written →
        (r.struct i).fields = some fields →
        ∀ field ∈ fields, ∀ h, field.type.core = .named h → h ∈ written' := by
  -- A type without a name leads nowhere, and a name that is written stays written.
  have hcons : ∀ (t : Ty) (ts : List Ty) (written' : Written),
      (∀ h, t.core = .named h → h ∈ written') →
      (∀ u ∈ ts, ∀ h, u.core = .named h → h ∈ written') →
      ∀ u ∈ t :: ts, ∀ h, u.core = .named h → h ∈ written' :=
    fun t ts written' ht hts => List.forall_mem_cons.mpr ⟨ht, hts⟩
  induction h with
  | nil => exact ⟨fun t ht => absurd ht List.not_mem_nil, fun i fields hm hn => absurd hm hn⟩
  | scalar t kind ht _ ih =>
      refine ⟨hcons t _ _ (fun h hh => ?_) ih.1, ih.2⟩
      rw [ht] at hh
      exact absurd hh Ty.noConfusion
  | decimal t type ht _ ih =>
      refine ⟨hcons t _ _ (fun h hh => ?_) ih.1, ih.2⟩
      rw [ht] at hh
      exact absurd hh Ty.noConfusion
  | reference t target ht hw rest ih =>
      refine ⟨hcons t _ _ (fun h hh => ?_) ih.1, ih.2⟩
      rw [ht, Ty.named.injEq] at hh
      exact rest.suffix.subset (hh ▸ hw)
  | enumeration t i ht _ rest ih =>
      refine ⟨hcons t _ _ (fun h hh => ?_) ih.1, fun j fields hm hn => ih.2 j fields hm ?_⟩
      · rw [ht, Ty.named.injEq] at hh
        exact rest.suffix.subset (hh ▸ List.mem_cons_self)
      · rw [List.mem_cons, not_or]
        exact ⟨Handle.noConfusion, hn⟩
  | struct written written₁ t _ i own ht _ hf body rest ihb ihr =>
      refine ⟨hcons t _ _ (fun h hh => ?_) ihr.1, fun j fields hm hn hj => ?_⟩
      · rw [ht, Ty.named.injEq] at hh
        exact rest.suffix.subset (body.suffix.subset (hh ▸ List.mem_cons_self))
      -- It is the struct itself, or was met among its fields, or is met behind it.
      · by_cases hm₁ : Handle.struct j ∈ written₁
        · by_cases he : j = i
          · rw [he, hf, Option.some.injEq] at hj
            intro field hfield h hh
            exact rest.suffix.subset
              (ihb.1 field.type (List.mem_map_of_mem (hj ▸ hfield)) h hh)
          · intro field hfield h hh
            refine rest.suffix.subset (ihb.2 j fields hm₁ ?_ hj field hfield h hh)
            rw [List.mem_cons, Handle.struct.injEq, not_or]
            exact ⟨he, hn⟩
        · exact ihr.2 j fields hm hm₁ hj

/-- What is written on a walk can be reached from where the walk leads. -/
theorem reached (root : Ty) (h : Walk r space written ts es refs written')
    (hw : ∀ h ∈ written, r.Reaches root (.named h)) (hts : ∀ t ∈ ts, r.Reaches root t) :
    ∀ h ∈ written', r.Reaches root (.named h) := by
  induction h with
  | nil => exact hw
  | scalar _ _ _ _ ih => exact ih hw (List.forall_mem_cons.mp hts).2
  | decimal _ _ _ _ ih => exact ih hw (List.forall_mem_cons.mp hts).2
  | reference _ _ _ _ _ ih => exact ih hw (List.forall_mem_cons.mp hts).2
  | enumeration t i ht _ _ ih =>
      rcases List.forall_mem_cons.mp hts with ⟨hhead, htail⟩
      exact ih (List.forall_mem_cons.mpr ⟨hhead.named r root t _ ht, hw⟩) htail
  -- The fields of a struct can be reached through it.
  | struct _ _ t _ i fields ht _ hf _ _ ihb ihr =>
      rcases List.forall_mem_cons.mp hts with ⟨hhead, htail⟩
      have hstruct := hhead.named r root t _ ht
      exact ihr (ihb (List.forall_mem_cons.mpr ⟨hstruct, hw⟩)
        (hstruct.fields r root i fields hf)) htail

/-- What is written of a type can be reached from there. -/
theorem reached_root (root : Ty) (e : Json) (h : Walk r none [] [root] [e] refs written') :
    ∀ h ∈ written', r.Reaches root (.named h) :=
  h.reached root (fun _ hm => absurd hm List.not_mem_nil) (Registry.Reaches.of_mem_singleton r root)

/-- A reference is to what can be reached, stands behind what can be reached, and is within the
    namespace of a record that can be reached, unless it is within that of the walk. -/
theorem references (root : Ty) (h : Walk r space written ts es refs written')
    (hw : ∀ h ∈ written, r.Reaches root (.named h)) (hts : ∀ t ∈ ts, r.Reaches root t) :
    ∀ ref ∈ refs, r.Reaches root (.named ref.target) ∧
      (∀ h ∈ ref.written, r.Reaches root (.named h)) ∧
      (ref.space = space ∨ ∃ i, r.Reaches root (.named (.struct i)) ∧
        ref.space = namespaceOf? (r.struct i).name) := by
  induction h with
  | nil => exact fun ref hm => absurd hm List.not_mem_nil
  | scalar _ _ _ _ ih => exact ih hw (List.forall_mem_cons.mp hts).2
  | decimal _ _ _ _ ih => exact ih hw (List.forall_mem_cons.mp hts).2
  | reference _ _ _ hm _ ih =>
      exact List.forall_mem_cons.mpr
        ⟨⟨hw _ hm, hw, Or.inl rfl⟩, ih hw (List.forall_mem_cons.mp hts).2⟩
  | enumeration t i ht _ _ ih =>
      rcases List.forall_mem_cons.mp hts with ⟨hhead, htail⟩
      exact ih (List.forall_mem_cons.mpr ⟨hhead.named r root t _ ht, hw⟩) htail
  | struct written _ t _ i fields ht _ hf body _ ihb ihr =>
      rcases List.forall_mem_cons.mp hts with ⟨hhead, htail⟩
      have hstruct := hhead.named r root t _ ht
      have hcons : ∀ h ∈ Handle.struct i :: written, r.Reaches root (.named h) :=
        List.forall_mem_cons.mpr ⟨hstruct, hw⟩
      have hfields := hstruct.fields r root i fields hf
      intro ref hm
      rcases List.mem_append.mp hm with hm | hm
      · rcases ihb hcons hfields ref hm with ⟨htarget, hwritten, hspace⟩
        -- Within the record the namespace is that of its name.
        exact ⟨htarget, hwritten, Or.inr (hspace.elim (fun hs => ⟨i, hstruct, hs⟩) id)⟩
      · exact ihr (body.reached root hcons hfields) htail ref hm

theorem length_eq (h : Walk r space written ts es refs written') : ts.length = es.length := by
  induction h with
  | nil => rfl
  | scalar _ _ _ _ ih => exact congrArg (· + 1) ih
  | decimal _ _ _ _ ih => exact congrArg (· + 1) ih
  | reference _ _ _ _ _ ih => exact congrArg (· + 1) ih
  | enumeration _ _ _ _ _ ih => exact congrArg (· + 1) ih
  | struct _ _ _ _ _ _ _ _ _ _ _ _ ihr => exact congrArg (· + 1) ihr

end Walk

/-! ### What is exported is a walk -/

/-- The documents of some types, one after another, with the export of each. -/
def exportTypes (exportType : Ty → Export Json) : List Ty → Export (List Json)
  | [] => pure []
  | t :: ts => do
    let e ← exportType t
    let es ← exportTypes exportType ts
    return e :: es

theorem exportTypes_cons_eq_ok_iff {exportType : Ty → Export Json} {t : Ty} {ts : List Ty}
    {s s' : Exporting} {docs : List Json} :
    exportTypes exportType (t :: ts) s = .ok docs s' ↔
      ∃ e es s₁, exportType t s = .ok e s₁ ∧ exportTypes exportType ts s₁ = .ok es s' ∧
        docs = e :: es := by
  rw [exportTypes, run_bind_eq_ok_iff]
  -- The others start from what the first one has written.
  constructor
  · rintro ⟨e, s₁, he, h⟩
    rw [run_bind_eq_ok_iff] at h
    rcases h with ⟨es, s₂, hes, h⟩
    rw [run_pure_eq_ok_iff] at h
    exact ⟨e, es, s₁, he, by rw [← h.2]; exact hes, h.1.symm⟩
  · rintro ⟨e, es, s₁, he, hes, rfl⟩
    refine ⟨e, s₁, he, ?_⟩
    rw [run_bind_of_ok hes]
    rfl

/-- The fields of a struct are exported by exporting their types. -/
theorem exportFields_eq_ok_iff (exportType : Ty → Export Json) (fields : List Field)
    (s s' : Exporting) (docs : List Json) : exportFields exportType fields s = .ok docs s' ↔
      ∃ es, exportTypes exportType (fields.map Field.type) s = .ok es s' ∧
        docs = fields.zipWith fieldSchema es := by
  -- Field by field the type is exported first, and the rest of the field is put around it.
  induction fields generalizing s docs with
  | nil =>
      simp only [exportFields, exportTypes, List.map_nil, run_pure_eq_ok_iff, List.zipWith_nil_left]
      exact ⟨fun ⟨hd, hw⟩ => ⟨[], ⟨rfl, hw⟩, hd.symm⟩, fun ⟨_, ⟨_, hw⟩, hd⟩ => ⟨hd.symm, hw⟩⟩
  | cons field fields ih =>
      rw [exportFields, run_bind_eq_ok_iff]
      constructor
      · rintro ⟨e, s₁, he, h⟩
        rw [run_bind_eq_ok_iff] at h
        rcases h with ⟨rest, s₂, hrest, h⟩
        rw [run_pure_eq_ok_iff] at h
        rcases (ih s₁ rest).mp (by rw [← h.2]; exact hrest) with ⟨es, hes, rfl⟩
        refine ⟨e :: es, ?_, h.1.symm⟩
        rw [List.map_cons, exportTypes_cons_eq_ok_iff]
        exact ⟨e, es, s₁, he, hes, rfl⟩
      · rintro ⟨es, hes, rfl⟩
        rw [List.map_cons, exportTypes_cons_eq_ok_iff] at hes
        rcases hes with ⟨e, es, s₁, he, hes, rfl⟩
        refine ⟨e, s₁, he, ?_⟩
        rw [run_bind_of_ok ((ih s₁ _).mpr ⟨es, hes, rfl⟩)]
        rfl

/-- What has been written within another namespace stays written, and the namespace around it
    is back. -/
theorem run_within_eq_ok_iff {α : Type} (space : Option String) (x : Export α) (s s' : Exporting)
    (a : α) : Export.within space x s = .ok a s' ↔
      ∃ s₁, x ⟨s.written, space⟩ = .ok a s₁ ∧ s' = ⟨s₁.written, s.space⟩ := by
  unfold Export.within
  cases x { s with space := space } with
  | ok b s₁ =>
      simp only [EStateM.Result.ok.injEq]
      exact ⟨fun ⟨hb, hs⟩ => ⟨s₁, ⟨hb, rfl⟩, hs.symm⟩, fun ⟨_, ⟨hb, he⟩, hs⟩ => ⟨hb, he ▸ hs.symm⟩⟩
  | error e s₁ => exact iff_of_false nofun fun ⟨_, h, _⟩ => nomatch h

/-- A named type that is written already is exported as its name. -/
theorem exportTypeWith_of_mem (r : Registry) (exportType : Ty → Export Json) (t : Ty) (h : Handle)
    (s : Exporting) (ht : t.core = .named h) (hw : h ∈ s.written) :
    exportTypeWith r exportType t s = .ok (.string (r.nameOf h)) s := by
  unfold exportTypeWith
  rw [ht]
  simp only [exportNamed]
  rw [run_bind_of_ok (run_get s), if_pos hw, run_pure]

/-- A named type that is not written yet is exported as its definition. -/
theorem exportTypeWith_of_not_mem (r : Registry) (exportType : Ty → Export Json) (t : Ty)
    (h : Handle) (s : Exporting) (ht : t.core = .named h) (hw : h ∉ s.written) :
    exportTypeWith r exportType t s
      = exportDefinition r exportType h ⟨h :: s.written, s.space⟩ := by
  unfold exportTypeWith
  rw [ht]
  simp only [exportNamed]
  rw [run_bind_of_ok (run_get s), if_neg hw, Export.define, run_bind_of_ok (run_modify _ s)]

theorem exportDefinition_enumeration (r : Registry) (exportType : Ty → Export Json) (i : Nat)
    (s : Exporting) : exportDefinition r exportType (.enumeration i) s
      = .ok (enumSchema s.space (r.enumeration i)) s :=
  rfl

/-- The definition of a struct is made of the types of its fields, within the namespace of its
    name. -/
theorem exportDefinition_struct_eq_ok_iff {r : Registry} {exportType : Ty → Export Json} {i : Nat}
    {s s' : Exporting} {e : Json} : exportDefinition r exportType (.struct i) s = .ok e s' ↔
      ∃ fields docs s₁, (r.struct i).fields = some fields ∧
        exportTypes exportType (fields.map Field.type)
          ⟨s.written, namespaceOf? (r.struct i).name⟩ = .ok docs s₁ ∧
        e = structSchema s.space (r.struct i) (fields.zipWith fieldSchema docs) ∧
        s' = ⟨s₁.written, s.space⟩ := by
  rw [exportDefinition]
  rcases hf : (r.struct i).fields with _ | fields
  · simp only [reduceCtorEq, false_and, exists_false, iff_false]
    exact run_throw_ne_ok
  · simp only [Option.some.injEq]
    rw [run_bind_of_ok (run_get s)]
    -- Within the struct the space is that of its name,
    -- and behind it the space is the old one again.
    simp only [run_bind_eq_ok_iff, run_within_eq_ok_iff, run_pure_eq_ok_iff, exportFields_eq_ok_iff]
    constructor
    · rintro ⟨_, s₂, ⟨s₁, ⟨docs, hdocs, rfl⟩, rfl⟩, rfl, rfl⟩
      exact ⟨fields, docs, s₁, rfl, hdocs, rfl, rfl⟩
    · rintro ⟨_, docs, s₁, rfl, hdocs, rfl, rfl⟩
      exact ⟨_, _, ⟨s₁, ⟨docs, hdocs, rfl⟩, rfl⟩, rfl, rfl⟩

theorem walk_of_exportTypeWith (r : Registry) (exportType : Ty → Export Json)
    (hexp : ∀ ts es s s', exportTypes exportType ts s = .ok es s' →
      ∃ refs, Walk r s.space s.written ts es refs s'.written)
    (t : Ty) (e : Json) (s s₁ : Exporting) (h : exportTypeWith r exportType t s = .ok e s₁)
    (ts : List Ty) (es : List Json) (refs' : List Reference) (written' : Written)
    (rest : Walk r s.space s₁.written ts es refs' written') :
    ∃ refs, Walk r s.space s.written (t :: ts) (e :: es) refs written' := by
  rcases ht : t.core with kind | type | handle | inner
  · rw [exportTypeWith, ht, run_pure_eq_ok_iff] at h
    rw [← h.1]
    exact ⟨refs', .scalar _ kind ht (h.2 ▸ rest)⟩
  · rw [exportTypeWith, ht, run_pure_eq_ok_iff] at h
    rw [← h.1]
    exact ⟨refs', .decimal _ type ht (h.2 ▸ rest)⟩
  · -- What is written already is referred to, and anything else is defined here.
    by_cases hw : handle ∈ s.written
    · rw [exportTypeWith_of_mem r _ t handle s ht hw, EStateM.Result.ok.injEq] at h
      rw [← h.2] at rest
      rw [← h.1]
      exact ⟨_, .reference _ handle ht hw rest⟩
    · rw [exportTypeWith_of_not_mem r _ t handle s ht hw] at h
      cases handle with
      | enumeration i =>
          rw [exportDefinition_enumeration, EStateM.Result.ok.injEq] at h
          rw [← h.2] at rest
          rw [← h.1]
          exact ⟨refs', .enumeration _ i ht hw rest⟩
      | struct i =>
          rw [exportDefinition_struct_eq_ok_iff] at h
          rcases h with ⟨fields, docs, s₂, hf, hdocs, rfl, rfl⟩
          rcases hexp _ _ _ _ hdocs with ⟨refs, body⟩
          exact ⟨_, .struct _ _ _ _ i fields ht hw hf body rest⟩
  · exact absurd ht (Ty.core_ne_unparsed t inner)

/-- Where a computation ends the namespace is the one that it started in. -/
def SameSpace (s s' : Exporting) : Prop :=
  s'.space = s.space

instance : IsPreorder Exporting SameSpace where
  refl _ := rfl
  trans _ _ _ h h' := h'.trans h

/-- A type leaves the namespace as it is, however the types within it are exported: what a
    struct does to it is undone at its end, whether that is a success or not. -/
theorem along_exportTypeWith (r : Registry) (exportType : Ty → Export Json) (t : Ty) :
    Along SameSpace (exportTypeWith r exportType t) := by
  have hwithin : ∀ {α : Type} (space : Option String) (x : Export α),
      Along SameSpace (Export.within space x) := by
    intro α space x s
    unfold Export.within
    cases x { s with space := space } <;> rfl
  unfold exportTypeWith
  rcases ht : t.core with kind | type | handle | inner
  · exact along_pure
  · exact along_pure
  · refine along_bind along_get fun s => ?_
    split
    · exact along_pure
    · -- To note that a type is written leaves the space alone.
      refine along_bind (fun _ => rfl) fun _ => ?_
      cases handle with
      | enumeration i => exact along_bind along_get fun _ => along_pure
      | struct i =>
          rw [exportDefinition]
          split
          · exact along_throw
          · exact along_bind along_get fun _ =>
              along_bind (hwithin _ _) fun _ => along_pure
  · exact along_throw

theorem exportTypeAt_eq_with (r : Registry) (depth : Nat) :
    ∃ exportType, exportTypeAt r depth = exportTypeWith r exportType := by
  cases depth with
  | zero => exact ⟨_, rfl⟩
  | succ depth => exact ⟨_, rfl⟩

/-- The namespace of an export comes back, however deep it went and however it ended. -/
theorem along_exportTypeAt (r : Registry) (depth : Nat) (t : Ty) :
    Along SameSpace (exportTypeAt r depth t) := by
  rcases exportTypeAt_eq_with r depth with ⟨exp, hexp⟩
  rw [hexp]
  exact along_exportTypeWith r exp t

theorem walk_of_exportTypes_of_with (r : Registry) (exportType : Ty → Export Json)
    (hspace : ∀ t, Along SameSpace (exportType t))
    (hexp : ∀ t e s s₁, exportType t s = .ok e s₁ →
      ∀ ts es refs' written', Walk r s.space s₁.written ts es refs' written' →
        ∃ refs, Walk r s.space s.written (t :: ts) (e :: es) refs written')
    (ts : List Ty) (es : List Json) (s s' : Exporting)
    (h : exportTypes exportType ts s = .ok es s') :
    ∃ refs, Walk r s.space s.written ts es refs s'.written := by
  induction ts generalizing es s with
  | nil =>
      rw [exportTypes, run_pure_eq_ok_iff] at h
      rw [← h.1, h.2]
      exact ⟨[], .nil _ _⟩
  | cons t ts ih =>
      rcases exportTypes_cons_eq_ok_iff.mp h with ⟨e, es, s₁, he, hes, rfl⟩
      rcases ih es s₁ hes with ⟨refs', rest⟩
      -- What follows the type is within the namespace that the type started in.
      have hsame := hspace t s
      rw [he] at hsame
      exact hexp t e s s₁ he ts es refs' s'.written (hsame ▸ rest)

/-- What is exported is a walk. -/
theorem walk_of_exportTypes (r : Registry) (depth : Nat) (ts : List Ty) (es : List Json)
    (s s' : Exporting) (h : exportTypes (exportTypeAt r depth) ts s = .ok es s') :
    ∃ refs, Walk r s.space s.written ts es refs s'.written := by
  induction depth generalizing ts es s s' with
  | zero =>
      refine walk_of_exportTypes_of_with r _ (along_exportTypeAt r 0)
        (walk_of_exportTypeWith r _ fun ts es s s' h => ?_) ts es s s' h
      -- No type within a type is exported any more.
      exact walk_of_exportTypes_of_with r _ (fun _ => along_throw)
        (fun t e s s₁ he => absurd he run_throw_ne_ok) ts es s s' h
  | succ depth ih =>
      exact walk_of_exportTypes_of_with r _ (along_exportTypeAt r (depth + 1))
        (walk_of_exportTypeWith r _ ih) ts es s s' h

/-! ### A walk is exported -/

/-- How many structs are left to be defined. -/
def unwritten (r : Registry) (written : Written) : Nat :=
  ((List.range r.structs.length).filter (.struct · ∉ written)).length

theorem unwritten_le_of_suffix (r : Registry) {written written' : Written}
    (h : written <:+ written') : unwritten r written' ≤ unwritten r written := by
  unfold unwritten
  rw [← List.countP_eq_length_filter, ← List.countP_eq_length_filter]
  refine List.countP_mono_left fun i _ hi => ?_
  rw [decide_eq_true_eq] at hi ⊢
  exact fun hm => hi (h.subset hm)

/-- A struct that is defined for the first time is one fewer that is left. -/
theorem unwritten_cons_lt (r : Registry) (written : Written) (i : Nat)
    (hi : i < r.structs.length) (h : .struct i ∉ written) :
    unwritten r (.struct i :: written) < unwritten r written := by
  have hsplit : (List.range r.structs.length).filter (.struct · ∉ Handle.struct i :: written)
      = ((List.range r.structs.length).filter (.struct · ∉ written)).filter (· ≠ i) := by
    rw [List.filter_filter]
    refine List.filter_congr fun j _ => ?_
    simp only [List.mem_cons, Handle.struct.injEq, not_or, ne_eq, Bool.decide_and]
  unfold unwritten
  rw [hsplit]
  refine List.length_filter_lt_length_iff_exists.mpr ⟨i, ?_, ?_⟩
  · rw [List.mem_filter, decide_eq_true_eq]
    exact ⟨List.mem_range.mpr hi, h⟩
  · simp only [ne_eq, not_true_eq_false, decide_false, Bool.false_eq_true, not_false_eq_true]

/-- A walk is exported, if the depth allows for the structs that are left. -/
theorem exportTypes_of_walk (r : Registry) (space : Option String) (written written' : Written)
    (ts : List Ty) (es : List Json) (refs : List Reference)
    (h : Walk r space written ts es refs written') :
    ∀ depth, unwritten r written ≤ depth →
      exportTypes (exportTypeAt r depth) ts ⟨written, space⟩ = .ok es ⟨written', space⟩ := by
  induction h with
  | nil => exact fun _ _ => rfl
  | scalar t kind ht rest ih =>
      intro depth hd
      rcases exportTypeAt_eq_with r depth with ⟨exp, hexp⟩
      refine exportTypes_cons_eq_ok_iff.mpr ⟨_, _, _, ?_, ih depth hd, rfl⟩
      rw [hexp, exportTypeWith, ht]
      rfl
  | decimal t type ht rest ih =>
      intro depth hd
      rcases exportTypeAt_eq_with r depth with ⟨exp, hexp⟩
      refine exportTypes_cons_eq_ok_iff.mpr ⟨_, _, _, ?_, ih depth hd, rfl⟩
      rw [hexp, exportTypeWith, ht]
      rfl
  | @reference space written _ _ _ _ t h ht hw rest ih =>
      intro depth hd
      rcases exportTypeAt_eq_with r depth with ⟨exp, hexp⟩
      refine exportTypes_cons_eq_ok_iff.mpr ⟨_, _, _, ?_, ih depth hd, rfl⟩
      rw [hexp]
      exact exportTypeWith_of_mem r exp t h ⟨written, space⟩ ht hw
  | @enumeration space written _ _ _ _ t i ht hw rest ih =>
      intro depth hd
      rcases exportTypeAt_eq_with r depth with ⟨exp, hexp⟩
      have hle := unwritten_le_of_suffix r (List.suffix_cons (.enumeration i) written)
      refine exportTypes_cons_eq_ok_iff.mpr ⟨_, _, _, ?_, ih depth (Nat.le_trans hle hd), rfl⟩
      rw [hexp, exportTypeWith_of_not_mem r exp t _ ⟨written, space⟩ ht hw,
        exportDefinition_enumeration]
  | @struct space _ _ _ _ _ written written₁ t docs i fields ht hw hf body rest ihb ihr =>
      intro depth hd
      -- Within the struct there is one struct fewer to write, and behind it there are no more.
      have hlt := unwritten_cons_lt r written i (r.lt_of_struct_fields i fields hf) hw
      have hle := unwritten_le_of_suffix r ((List.suffix_cons _ _).trans (body.suffix))
      cases depth with
      | zero => exact absurd (Nat.lt_of_lt_of_le hlt hd) (Nat.not_lt_zero _)
      | succ depth =>
          refine exportTypes_cons_eq_ok_iff.mpr
            ⟨_, _, _, ?_, ihr (depth + 1) (Nat.le_trans hle hd), rfl⟩
          rw [exportTypeAt, exportTypeWith_of_not_mem r _ t _ ⟨written, space⟩ ht hw]
          exact exportDefinition_struct_eq_ok_iff.mpr
            ⟨fields, docs, _, hf, ihb depth (Nat.le_of_lt_succ (Nat.lt_of_lt_of_le hlt hd)), rfl,
              rfl⟩

/-- Where every struct on the way has its fields there is a walk. -/
theorem exists_walk (r : Registry) (left : Nat) (space : Option String) (written : Written)
    (ts : List Ty) (hl : unwritten r written ≤ left)
    (hts : ∀ t ∈ ts, ∀ i, r.Reaches t (.named (.struct i)) →
      ∃ fields, (r.struct i).fields = some fields) :
    ∃ es refs written', Walk r space written ts es refs written' := by
  induction left using Nat.strong_induction_on generalizing space written ts with
  | _ left ih =>
    induction ts generalizing written with
    | nil => exact ⟨[], [], written, .nil _ _⟩
    | cons t ts iht =>
        have htail := fun written₁ hle => iht written₁ hle
          (fun u hu => hts u (List.mem_cons_of_mem _ hu))
        rcases ht : t.core with kind | type | handle | inner
        · rcases htail written hl with ⟨es, refs, written', rest⟩
          exact ⟨_, _, _, .scalar _ kind ht rest⟩
        · rcases htail written hl with ⟨es, refs, written', rest⟩
          exact ⟨_, _, _, .decimal _ type ht rest⟩
        · by_cases hw : handle ∈ written
          · rcases htail written hl with ⟨es, refs, written', rest⟩
            exact ⟨_, _, _, .reference _ handle ht hw rest⟩
          · have hle := unwritten_le_of_suffix r (List.suffix_cons handle written)
            cases handle with
            | enumeration i =>
                rcases htail _ (Nat.le_trans hle hl) with ⟨es, refs, written', rest⟩
                exact ⟨_, _, _, .enumeration _ i ht hw rest⟩
            | struct i =>
                have hreach : r.Reaches t (.named (.struct i)) :=
                  ht ▸ Registry.Reaches.core r t t .root
                rcases hts t List.mem_cons_self i hreach with ⟨fields, hf⟩
                have hlt := unwritten_cons_lt r written i (r.lt_of_struct_fields i fields hf) hw
                -- The fields' types are met on the way from this type.
                rcases ih _ (Nat.lt_of_lt_of_le hlt hl) (namespaceOf? (r.struct i).name)
                  (.struct i :: written) (fields.map Field.type) (Nat.le_refl _)
                  (fun u hu j hj => by
                    rcases List.mem_map.mp hu with ⟨field, hm, rfl⟩
                    exact hts t List.mem_cons_self j
                      (Registry.Reaches.trans r (.field i fields field hreach hf hm) hj))
                  with ⟨docs, refs, written₁, body⟩
                have hle₁ := unwritten_le_of_suffix r body.suffix
                rcases htail written₁ (Nat.le_trans hle₁ (Nat.le_trans hle hl)) with
                  ⟨es, refs', written', rest⟩
                exact ⟨_, _, _, .struct _ _ _ _ i fields ht hw hf body rest⟩
        · exact absurd ht (Ty.core_ne_unparsed t inner)

/-- What can be reached from the start of a whole walk is written in the end. -/
theorem mem_of_reaches (r : Registry) (root : Ty) (e : Json) (refs : List Reference)
    (written : Written) (hwalk : Walk r none [] [root] [e] refs written) (t : Ty)
    (ht : r.Reaches root t) : ∀ h, t.core = .named h → h ∈ written := by
  rcases hwalk.covers with ⟨hstart, hfields⟩
  induction ht with
  | root => exact hstart root (List.mem_singleton_self _)
  | inner t _ ih => exact ih
  | field i fields field _ hf hm ih =>
      exact hfields i fields (ih _ rfl) List.not_mem_nil hf field hm

theorem unwritten_nil_le (r : Registry) : unwritten r [] ≤ r.structs.length := by
  unfold unwritten
  exact Nat.le_trans (List.length_filter_le _ _) (Nat.le_of_eq List.length_range)

end Avro

/-- An export is what becomes of the type from a clean start. -/
theorem toSchema_eq (r : Registry) (t : Ty) : toSchema r t =
    match Avro.exportType r t ⟨[], none⟩ with
    | .ok e _ => .ok e
    | .error e _ => .error e := by
  have hroot : ∀ s, Avro.exportRoot r t s = Avro.exportType r t ⟨[], none⟩ := fun _ => rfl
  rw [toSchema, Exporter.run, hroot]
  cases Avro.exportType r t ⟨[], none⟩ <;> rfl

/-- An export succeeds exactly along a walk. -/
theorem toSchema_eq_ok_iff (r : Registry) (t : Ty) (e : Json) :
    toSchema r t = .ok e ↔ ∃ refs written, Avro.Walk r none [] [t] [e] refs written := by
  have hrun : toSchema r t = .ok e ↔
      ∃ s, Avro.exportTypeAt r r.structs.length t ⟨[], none⟩ = .ok e s := by
    rw [toSchema_eq, Avro.exportType]
    cases Avro.exportTypeAt r r.structs.length t ⟨[], none⟩ with
    | ok e' s =>
        simp only [Except.ok.injEq, EStateM.Result.ok.injEq]
        exact ⟨fun he => ⟨s, he, rfl⟩, fun ⟨_, he, _⟩ => he⟩
    | error err s => simp only [reduceCtorEq, exists_false]
  rw [hrun]
  constructor
  · rintro ⟨s, h⟩
    rcases Avro.walk_of_exportTypes r _ [t] [e] ⟨[], none⟩ s
      (Avro.exportTypes_cons_eq_ok_iff.mpr ⟨e, [], s, h, rfl, rfl⟩) with
      ⟨refs, hwalk⟩
    exact ⟨refs, s.written, hwalk⟩
  · -- As many steps as there are structs are enough, since no struct is entered twice.
    rintro ⟨refs, written, hwalk⟩
    have h := Avro.exportTypes_of_walk r none [] written [t] [e] refs hwalk _
      (Avro.unwritten_nil_le r)
    rcases Avro.exportTypes_cons_eq_ok_iff.mp h with ⟨e', es, s₁, he, hes, hc⟩
    rw [Avro.exportTypes, run_pure_eq_ok_iff] at hes
    rw [List.cons.injEq] at hc
    rw [hc.1]
    exact ⟨s₁, he⟩

end Schemata
