import Schemata.Proofs.Avro.Growth
import Schemata.Proofs.Avro.Order
import Schemata.Proofs.Avro.ReadBack
import Schemata.Proofs.Registry.Bisimulation

/-!
# The Graph an Export Is Read As

What an import makes of an exported document.

The types of the new registry are those that were written, in the order of
writing and with their handles renumbered. `Avro.mirror` is that registry.

The walk and the reading go in step. After any part of the document has been
written and read, the new registry holds what was written by then, except that
the records around that part have no fields yet. `Avro.draft` is the registry
at such a moment; the last draft, with no record open, is the mirror. For the
renumbering to be one and the same all along, it is taken from what the walk
has written in the end.

## Main definitions

* `Avro.imageType`, `Avro.imageField`: Types and fields, renumbered.
* `Avro.draft`, `Avro.mirror`: The registry on the way and in the end.
* `Avro.MirroredAlong`: What a part of the walk writes is read as drafts.

## Theorems

* `Avro.reading_of_walk`: What a walk writes is read as drafts.
* `Avro.sameType_mirror`: A graph that is written in full equals its mirror.
* `Avro.walk_mirror`: The mirror is written as the same documents.
-/

namespace Schemata

namespace Avro

/-! ### Renumbering -/

/-- The type with its handle renumbered. -/
def imageType (final : Written) : Ty → Ty
  | .named h => .named (image final h)
  | .unparsed t => .unparsed (imageType final t)
  | t => t

/-- The field as it is read, with the handle of its type renumbered. -/
def imageField (final : Written) (field : Field) : Field :=
  { field with type := imageType final field.type, owner := none }

theorem map_type_imageField (final : Written) (fields : List Field) :
    (fields.map (imageField final)).map Field.type
      = (fields.map Field.type).map (imageType final) := by
  rw [List.map_map, List.map_map]
  rfl

/-! ### Drafts -/

/-- A struct with its fields as they are read, or without fields while it is open. -/
def imageStruct (r : Registry) (token : Nat) (final : Written) (opened : List Nat) (i : Nat) :
    StructType :=
  { r.struct i with
    fields :=
      if i ∈ opened then none
      else (r.struct i).fields.map fun fields =>
        (fields.map (imageField final)).map (·.stamp ⟨token, (structsOf final).idxOf i⟩) }

/-- What has been read when some types are written and some structs are open. -/
def draft (r : Registry) (token : Nat) (final : Written) (opened : List Nat) (written : Written) :
    Registry :=
  ⟨token, (structsOf written).map (imageStruct r token final opened),
    (enumsOf written).map r.enumeration⟩

/-- What has been read in the end. -/
def mirror (r : Registry) (token : Nat) (final : Written) : Registry :=
  draft r token final [] final

section

variable (r : Registry) (token : Nat) (final : Written) (opened : List Nat) (written : Written)

theorem draft_structs_length :
    (draft r token final opened written).structs.length = (structsOf written).length := by
  rw [draft, List.length_map]

theorem draft_enums_length :
    (draft r token final opened written).enums.length = (enumsOf written).length := by
  rw [draft, List.length_map]

theorem draft_struct (hs : written <:+ final) (i : Nat) (hm : .struct i ∈ written) :
    (draft r token final opened written).struct ((structsOf final).idxOf i)
      = imageStruct r token final opened i := by
  have hi := (mem_structsOf written i).mpr hm
  have hlt := List.idxOf_lt_length_of_mem hi
  rw [← (structsOf_initial _ _ hs).idxOf_eq_of_mem hi, Registry.struct_eq_getElem _ _ (by
    rw [draft_structs_length]
    exact hlt)]
  simp only [draft, List.getElem_map, List.getElem_idxOf]

theorem draft_enumeration (hs : written <:+ final) (i : Nat) (hm : .enumeration i ∈ written) :
    (draft r token final opened written).enumeration ((enumsOf final).idxOf i)
      = r.enumeration i := by
  have hi := (mem_enumsOf written i).mpr hm
  have hlt := List.idxOf_lt_length_of_mem hi
  rw [← (enumsOf_initial _ _ hs).idxOf_eq_of_mem hi, Registry.enumeration_eq_getElem _ _ (by
    rw [draft_enums_length]
    exact hlt)]
  simp only [draft, List.getElem_map, List.getElem_idxOf]

theorem draft_echoes : Echoes r (draft r token final opened written) written where
  structs := by
    rw [draft, List.map_map]
    rfl
  enums := rfl

/-- What is written next has names that nothing in the draft carries. -/
theorem draft_unused (hn : final.Nodup) (hd : r.Distinct) (hs : written <:+ final)
    (hw : ∀ h ∈ written, r.Holds h) (h : Handle) (hh : r.Holds h) (hm : h ∉ written) :
    (draft r token final opened written).Unused (r.namesOf h) :=
  (draft_echoes r token final opened written).unused (hn.sublist hs.sublist) hd hw hh hm

theorem mirror_namesOf (h : Handle) (hm : h ∈ final) :
    (mirror r token final).namesOf (image final h) = r.namesOf h :=
  (draft_echoes r token final [] final).namesOf h hm

/-- The enum that is written next is the next enum. -/
theorem draft_cons_enumeration (i : Nat) :
    draft r token final opened (.enumeration i :: written)
      = (draft r token final opened written).appendEnum (r.enumeration i) := by
  simp only [draft, Registry.appendEnum, structsOf_cons_enumeration, enumsOf_cons_enumeration,
    List.map_append, List.map_cons, List.map_nil]

/-- The struct that is written next is the next struct, and is open. -/
theorem draft_cons_struct (i : Nat) (hi : .struct i ∉ written) :
    draft r token final (i :: opened) (.struct i :: written)
      = (draft r token final opened written).appendStruct { r.struct i with fields := none } := by
  have hopen : imageStruct r token final (i :: opened) i = { r.struct i with fields := none } := by
    simp only [imageStruct, List.mem_cons, true_or, if_true]
  have hothers : (structsOf written).map (imageStruct r token final (i :: opened))
      = (structsOf written).map (imageStruct r token final opened) := by
    refine List.map_congr_left fun j hj => ?_
    have hne : j ≠ i := fun he => hi (he ▸ (mem_structsOf written j).mp hj)
    simp only [imageStruct, List.mem_cons, hne, false_or]
  simp only [draft, Registry.appendStruct, structsOf_cons_struct, enumsOf_cons_struct,
    List.map_append, List.map_cons, List.map_nil, hothers, hopen]

/-- An open struct that takes in its fields is open no more. -/
theorem draft_close (hs : written <:+ final) (hn : final.Nodup) (i : Nat)
    (hm : .struct i ∈ written) :
    (draft r token final (i :: opened) written).setStruct ((structsOf final).idxOf i)
        (imageStruct r token final opened i) = draft r token final opened written := by
  have hmem := (mem_structsOf written i).mpr hm
  have hp : (structsOf final).idxOf i = (structsOf written).idxOf i :=
    ((structsOf_initial _ _ hs).idxOf_eq_of_mem hmem).symm
  have hnodup := structsOf_nodup written (hn.sublist hs.sublist)
  rw [hp]
  simp only [draft, Registry.setStruct, Registry.mk.injEq, true_and, and_true]
  refine List.ext_getElem (by simp only [List.length_set, List.length_map]) fun p h₁ h₂ => ?_
  rw [List.length_map] at h₂
  rw [List.getElem_set]
  by_cases he : (structsOf written).idxOf i = p
  · rw [if_pos he, List.getElem_map]
    simp only [← he, List.getElem_idxOf]
  · -- Any other place holds another struct.
    have hne : (structsOf written)[p] ≠ i := fun h => he (by
      rw [← h, hnodup.idxOf_getElem p h₂])
    rw [if_neg he, List.getElem_map, List.getElem_map]
    simp only [imageStruct, List.mem_cons, hne, false_or]

/-- The struct that is written next gets the next place. -/
theorem idxOf_next_struct (i : Nat) (hs : .struct i :: written <:+ final)
    (hi : .struct i ∉ written) : (structsOf final).idxOf i = (structsOf written).length := by
  have hm : i ∈ structsOf (.struct i :: written) := by
    rw [mem_structsOf]
    exact List.mem_cons_self
  rw [← (structsOf_initial _ _ hs).idxOf_eq_of_mem hm, structsOf_cons_struct,
    List.idxOf_append_of_notMem fun hmem => hi ((mem_structsOf written i).mp hmem),
    List.idxOf_cons_self, Nat.add_zero]

/-- The enum that is written next gets the next place. -/
theorem idxOf_next_enumeration (i : Nat) (hs : .enumeration i :: written <:+ final)
    (hi : .enumeration i ∉ written) : (enumsOf final).idxOf i = (enumsOf written).length := by
  have hm : i ∈ enumsOf (.enumeration i :: written) := by
    rw [mem_enumsOf]
    exact List.mem_cons_self
  rw [← (enumsOf_initial _ _ hs).idxOf_eq_of_mem hm, enumsOf_cons_enumeration,
    List.idxOf_append_of_notMem fun hmem => hi ((mem_enumsOf written i).mp hmem),
    List.idxOf_cons_self, Nat.add_zero]

/-- The fields that are read of an open struct close it. -/
theorem setFields_draft (hs : written <:+ final) (hn : final.Nodup) (i : Nat)
    (hm : .struct i ∈ written) (hi : i ∉ opened) (fields : List Field)
    (hf : (r.struct i).fields = some fields) (hd : FieldsDistinct fields) :
    (draft r token final (i :: opened) written).setFields ((structsOf final).idxOf i)
        (fields.map (imageField final)) = .ok (draft r token final opened written) := by
  rw [Registry.setFields_eq_ok_iff, draft_struct r token final (i :: opened) written hs i hm]
  -- An open struct has no fields, its images have no owner and names as distinct as those they
  -- mirror, and with them it is closed.
  refine ⟨?_, ?_, ?_, ?_⟩
  · simp only [imageStruct, List.mem_cons, true_or, if_true]
  · intro field hfield o ho
    rcases List.mem_map.mp hfield with ⟨f, _, rfl⟩
    exact nomatch ho
  · rw [FieldsDistinct, List.flatMap_map]
    exact hd
  · rw [← draft_close r token final opened written hs hn i hm]
    simp only [imageStruct, hi, if_false, hf, Option.map_some, Registry.owner, draft]

end

/-! ### Along the walk -/

section

variable (r : Registry) (token : Nat) (root : Ty) (final : Written)

/-- What is shown of a part of the walk: what it writes is read as drafts, the documents as the
    types with their handles renumbered, and the registry as what is written by then. The structs
    around the part are open all along. -/
def MirroredAlong (space : Option String) (written : Written) (ts : List Ty) (es : List Json)
    (refs : List Reference) (written' : Written) : Prop :=
  ∀ opened : List Nat, written' <:+ final → (∀ h ∈ written, r.Reaches root (.named h)) →
    (∀ t ∈ ts, r.Reaches root t) → (∀ i ∈ opened, .struct i ∈ written) →
    (∀ ref ∈ refs, ref.Resolves r) →
    Reading space (draft r token final opened written) es (ts.map (imageType final))
      (draft r token final opened written')

end

namespace MirroredAlong

variable {r : Registry} {token : Nat} {root : Ty} {final : Written} {space : Option String}
  {written written₁ written' : Written} {ts : List Ty} {es : List Json}
  {refs refs' : List Reference} {t : Ty}

/-- A type without a name is read as it is. -/
theorem leaf (hp : Plain r root) {u : Ty} (hc : t.core = u) {e : Json}
    (hu : u.Writable → imageType final u = u ∧ LeafRead e u)
    (ih : MirroredAlong r token root final space written ts es refs written') :
    MirroredAlong r token root final space written (t :: ts) (e :: es) refs written' := by
  intro opened hs hw hts ho hr
  rcases List.forall_mem_cons.mp hts with ⟨hhead, htail⟩
  have hwritable := hp.types r root t hhead
  rw [hp.eq_of_core r root t _ hhead hc] at hwritable ⊢
  rcases hu hwritable with ⟨himage, hread⟩
  rw [List.map_cons, himage]
  exact .leaf _ hread (ih opened hs hw htail ho hr)

/-- The name of what is written already is resolved to its image, unless it is captured. -/
theorem reference (hn : final.Nodup) (hp : Plain r root) (hd : r.Distinct) {h : Handle}
    (hc : t.core = .named h) (hm : h ∈ written) (rest : Walk r space written ts es refs written')
    (ih : MirroredAlong r token root final space written ts es refs written') :
    MirroredAlong r token root final space written (t :: ts) (.string (r.nameOf h) :: es)
      (⟨space, written, h⟩ :: refs) written' := by
  intro opened hs hw hts ho hr
  rcases List.forall_mem_cons.mp hts with ⟨hhead, htail⟩
  rcases List.forall_mem_cons.mp hr with ⟨hres, hrest⟩
  have hsuf := rest.suffix.trans hs
  rw [hp.eq_of_core r root t _ hhead hc, List.map_cons, imageType,
    image_of_suffix final _ h hsuf hm]
  exact .reference _ _ (.text (r.nameOf h)) hres.1
    ((draft_echoes r token final opened _).resolve_eq (hn.sublist hsuf.sublist) hd
      (hp.holds r root hw) h hm hres) (ih opened hs hw htail ho hrest)

/-- An enum takes the next place. -/
theorem enumeration (hn : final.Nodup) (hp : Plain r root) (hd : r.Distinct) {i : Nat}
    (hc : t.core = .named (.enumeration i)) (hm : .enumeration i ∉ written)
    (rest : Walk r space (.enumeration i :: written) ts es refs written')
    (ih : MirroredAlong r token root final space (.enumeration i :: written) ts es refs written') :
    MirroredAlong r token root final space written (t :: ts)
      (enumSchema space (r.enumeration i) :: es) refs written' := by
  intro opened hs hw hts ho hr
  rcases List.forall_mem_cons.mp hts with ⟨hhead, htail⟩
  have hsame := hp.eq_of_core r root t _ hhead hc
  rw [hsame] at hhead ⊢
  have hsuf := rest.suffix.trans hs
  -- The enum is written now, so the rest is read from the draft with one enum more.
  have hnext := ih opened hs (List.forall_mem_cons.mpr ⟨hhead, hw⟩) htail
    (fun j hj => List.mem_cons_of_mem _ (ho j hj)) hr
  rw [draft_cons_enumeration] at hnext
  rw [List.map_cons, imageType, image, idxOf_next_enumeration final _ i hsuf hm, enumSchema_eq,
    ← draft_enums_length r token final opened written]
  exact .enumeration _ _ (enumRead_enumMembers _ _ (hp.names _ hhead))
    (draft_unused r token final opened written hn hd ((List.suffix_cons _ _).trans hsuf)
      (hp.holds r root hw) _ (hp.complete.held _ hhead) hm) hnext

/-- A struct takes the next place. It is open while its fields are read, and closed before what
    follows it. -/
theorem struct (hn : final.Nodup) (hp : Plain r root) (ht : r.Tidy) {i : Nat}
    {fields : List Field} {docs : List Json} (hc : t.core = .named (.struct i))
    (hm : .struct i ∉ written) (hf : (r.struct i).fields = some fields)
    (body : Walk r (namespaceOf? (r.struct i).name) (.struct i :: written)
      (fields.map Field.type) docs refs written₁)
    (rest : Walk r space written₁ ts es refs' written')
    (ihb : MirroredAlong r token root final (namespaceOf? (r.struct i).name) (.struct i :: written)
      (fields.map Field.type) docs refs written₁)
    (ihr : MirroredAlong r token root final space written₁ ts es refs' written') :
    MirroredAlong r token root final space written (t :: ts)
      (structSchema space (r.struct i) (fields.zipWith fieldSchema docs) :: es) (refs ++ refs')
      written' := by
  intro opened hs hw hts ho hr
  rcases List.forall_mem_cons.mp hts with ⟨hhead, htail⟩
  have hsame := hp.eq_of_core r root t _ hhead hc
  rw [hsame] at hhead ⊢
  rcases List.forall_mem_append.mp hr with ⟨hrefs, hrefs'⟩
  have hsuf₁ := rest.suffix.trans hs
  have hsuf := body.suffix.trans hsuf₁
  have hcons : ∀ h ∈ Handle.struct i :: written, r.Reaches root (.named h) :=
    List.forall_mem_cons.mpr ⟨hhead, hw⟩
  have hreach := hhead.fields r root i fields hf
  have hlen : fields.length = docs.length := by
    rw [← body.length_eq, List.length_map]
  have hbody := ihb (i :: opened) hsuf₁ hcons hreach
    (List.forall_mem_cons.mpr ⟨List.mem_cons_self, fun j hj => List.mem_cons_of_mem _ (ho j hj)⟩)
    hrefs
  have hrest := ihr opened hs (body.reached root hcons hreach) htail
    (fun j hj => body.suffix.subset (List.mem_cons_of_mem _ (ho j hj))) hrefs'
  -- What the fields are read as does not depend on the registry, apart from their types.
  have hread : ∃ forms, FieldsRead (fields.zipWith fieldSchema docs) forms
      (fields.map (imageField final)) ∧ forms.map FieldForm.type = docs :=
    fieldsRead_zipWith fields docs (imageType final) hlen (hp.fields i fields hhead hf)
      fun e he => ⟨body.single e he, body.not_null hrefs e he⟩
  rcases hread with ⟨forms, hforms, htypes⟩
  rw [draft_cons_struct r token final opened written i hm, ← htypes,
    ← map_type_imageField] at hbody
  have hset := setFields_draft r token final opened written₁ hsuf₁ hn i
    (body.suffix.subset List.mem_cons_self) (fun hi => hm (ho i hi)) fields hf
    (ht.fields i fields hf)
  -- The place of the struct is how many structs there are in the draft by now.
  have hplace := idxOf_next_struct final written i hsuf hm
  rw [← draft_structs_length r token final opened written] at hplace
  rw [hplace] at hset
  rw [List.map_cons, imageType, image, hplace, structSchema_eq]
  exact .struct _ _ _ _ _ forms _ (recordRead_structMembers _ (r.struct i) _ (hp.names _ hhead))
    (draft_unused r token final opened written hn ht.distinct ((List.suffix_cons _ _).trans hsuf)
      (hp.holds r root hw) _ (hp.complete.held _ hhead) hm) hforms hbody hset hrest

end MirroredAlong

/-- What a walk writes is read as drafts. -/
theorem reading_of_walk (r : Registry) (token : Nat) (root : Ty) (final : Written)
    (hn : final.Nodup) (hp : Plain r root) (ht : r.Tidy) {space : Option String}
    {written written' : Written} {ts : List Ty} {es : List Json} {refs : List Reference}
    (h : Walk r space written ts es refs written') :
    MirroredAlong r token root final space written ts es refs written' := by
  -- On the walk, one lemma for each step of it.
  induction h with
  | nil => exact fun _ _ _ _ _ _ => .nil _ _
  | scalar t kind hc rest ih =>
      exact ih.leaf hp hc (fun hw => ⟨rfl, leafRead_scalarSchema kind hw⟩)
  | decimal t type hc rest ih =>
      exact ih.leaf hp hc (fun hw => ⟨rfl, leafRead_decimalSchema type hw⟩)
  | reference t h hc hm rest ih => exact ih.reference hn hp ht.distinct hc hm rest
  | enumeration t i hc hm rest ih => exact ih.enumeration hn hp ht.distinct hc hm rest
  | struct written written₁ t docs i fields hc hm hf body rest ihb ihr =>
      exact .struct hn hp ht hc hm hf body rest ihb ihr

/-! ### The mirror -/

section

variable (r : Registry) (token : Nat) (final : Written)

theorem mirror_struct_fields (i : Nat) (hm : .struct i ∈ final) (fields : List Field)
    (hf : (r.struct i).fields = some fields) :
    ((mirror r token final).struct ((structsOf final).idxOf i)).fields = some
      ((fields.map (imageField final)).map (·.stamp ⟨token, (structsOf final).idxOf i⟩)) := by
  rw [mirror, draft_struct r token final [] final (List.suffix_refl _) i hm]
  simp only [imageStruct, List.not_mem_nil, if_false, hf, Option.map_some]

/-- Apart from its fields, a struct is written as it was. -/
theorem mirror_structSchema (i : Nat) (hm : .struct i ∈ final) (space : Option String)
    (items : List Json) :
    structSchema space ((mirror r token final).struct ((structsOf final).idxOf i)) items
      = structSchema space (r.struct i) items := by
  rw [mirror, draft_struct r token final [] final (List.suffix_refl _) i hm]
  rfl

/-- A type agrees with its image, if all its structs are written and it is not unparsed. -/
theorem typesMatch_imageType (t : Ty) (hw : t.Writable) (hm : ∀ h, t.core = .named h → h ∈ final) :
    Registry.TypesMatch r (mirror r token final)
      (fun i j => .struct i ∈ final ∧ j = (structsOf final).idxOf i) t (imageType final t) := by
  cases t with
  | scalar kind => exact .scalar kind
  | decimal type => exact .decimal type
  | unparsed t => exact hw.elim
  | named h =>
      cases h with
      | struct i => exact .struct _ _ ⟨hm _ rfl, rfl⟩
      | enumeration i =>
          refine .enumeration _ _ ?_
          exact (draft_enumeration r token final [] final (List.suffix_refl _) i (hm _ rfl)).symm

/-- Fields are exported as what they are read as. -/
theorem zipWith_fieldSchema_image (owner : Owner) (fields : List Field) (docs : List Json) :
    ((fields.map (imageField final)).map (·.stamp owner)).zipWith fieldSchema docs
      = fields.zipWith fieldSchema docs := by
  rw [List.map_map, List.zipWith_map_left]
  rfl

theorem imageType_core (t : Ty) : (imageType final t).core = imageType final t.core := by
  induction t with
  | unparsed t ih => exact ih
  | scalar _ | decimal _ | named _ => rfl

end

/-- A graph that is written in full equals its mirror. -/
theorem sameType_mirror (r : Registry) (token : Nat) (root : Ty) (hp : Plain r root) (e : Json)
    (refs : List Reference) (final : Written) (hwalk : Walk r none [] [root] [e] refs final) :
    r.sameType root (mirror r token final) (imageType final root) = true := by
  have hreached := hwalk.reached_root root e
  have hmem := mem_of_reaches r root e refs final hwalk
  refine Registry.sameType_of_bisimulation r _
    (fun i j => .struct i ∈ final ∧ j = (structsOf final).idxOf i) ?_ ?_ root _
    (typesMatch_imageType r token final root hp.start (hmem root .root))
  · rintro i _ ⟨hm, rfl⟩
    have hreach := hreached _ hm
    rcases hp.complete.assigned i hreach with ⟨fields, hf⟩
    refine ⟨?_, ?_, ?_⟩
    · rw [mirror, draft_struct r token final [] final (List.suffix_refl _) i hm]
      rfl
    · rw [mirror, draft_struct r token final [] final (List.suffix_refl _) i hm]
      rfl
    · rw [hf, mirror_struct_fields r token final i hm fields hf]
      refine .some ?_
      rw [List.map_map]
      -- Field by field, only the handles of types have changed.
      refine List.forall₂_map_right_iff.mpr (List.forall₂_same.mpr fun field hfield => ⟨?_, ?_⟩)
      · exact Registry.sameFieldHead_of_eq _ _ rfl rfl rfl rfl
      · exact typesMatch_imageType r token final field.type
          (hp.fields i fields hreach hf field hfield).1
          (hmem field.type (.field i fields field hreach hf hfield))
  · rintro i _ ⟨hm, rfl⟩
    refine ⟨hp.complete.held _ (hreached _ hm), ?_⟩
    rw [mirror, draft_structs_length]
    exact List.idxOf_lt_length_of_mem ((mem_structsOf final i).mpr hm)

/-- The use of a named type, with its handles renumbered. -/
def imageReference (final : Written) (ref : Reference) : Reference :=
  ⟨ref.space, ref.written.map (image final), image final ref.target⟩

/-- The mirror is written as the same documents. -/
theorem walk_mirror (r : Registry) (token : Nat) (final : Written) (space : Option String)
    (written written' : Written) (ts : List Ty) (es : List Json) (refs : List Reference)
    (h : Walk r space written ts es refs written') (hs : written' <:+ final) :
    Walk (mirror r token final) space (written.map (image final)) (ts.map (imageType final)) es
      (refs.map (imageReference final)) (written'.map (image final)) := by
  -- Different handles have different images, so what is not written has no image among these.
  have hnot : ∀ (h : Handle) (written : Written), h ∈ final → h ∉ written →
      image final h ∉ written.map (image final) := by
    intro h written hm hn himage
    rcases List.mem_map.mp himage with ⟨h', hm', he⟩
    rw [image_injective final h h' hm he.symm] at hn
    exact hn hm'
  have hcore : ∀ t h, t.core = .named h → (imageType final t).core = .named (image final h) := by
    intro t h ht
    rw [imageType_core, ht, imageType]
  induction h with
  | nil => exact .nil _ _
  | scalar t kind ht rest ih =>
      refine .scalar _ kind ?_ (ih hs)
      rw [imageType_core, ht]
      rfl
  | decimal t type ht rest ih =>
      refine .decimal _ type ?_ (ih hs)
      rw [imageType_core, ht]
      rfl
  | reference t h ht hw rest ih =>
      have hm := hs.subset (rest.suffix.subset hw)
      have hname : (mirror r token final).nameOf (image final h) = r.nameOf h :=
        congrArg Names.name (mirror_namesOf r token final h hm)
      have hstep := Walk.reference _ (image final h) (hcore t h ht) (List.mem_map_of_mem hw) (ih hs)
      rw [hname] at hstep
      exact hstep
  | enumeration t i ht hw rest ih =>
      have hm : Handle.enumeration i ∈ final :=
        hs.subset (rest.suffix.subset List.mem_cons_self)
      have hstep := Walk.enumeration _ _ (hcore t _ ht) (hnot _ _ hm hw) (ih hs)
      rw [mirror, draft_enumeration r token final [] final (List.suffix_refl _) i hm] at hstep
      exact hstep
  | @struct space _ _ _ _ _ written written₁ t docs i fields ht hw hf body rest ihb ihr =>
      have hs₁ := rest.suffix.trans hs
      have hm : Handle.struct i ∈ final := hs₁.subset (body.suffix.subset List.mem_cons_self)
      have hbody := ihb hs₁
      have hname : ((mirror r token final).struct ((structsOf final).idxOf i)).name
          = (r.struct i).name :=
        congrArg Names.name (mirror_namesOf r token final (.struct i) hm)
      have htypes : ((fields.map (imageField final)).map
              (·.stamp ⟨token, (structsOf final).idxOf i⟩)).map Field.type
          = (fields.map Field.type).map (imageType final) := by
        rw [List.map_map]
        exact map_type_imageField final fields
      rw [← htypes, ← hname] at hbody
      have hstep := Walk.struct _ _ _ _ _ _ (hcore t _ ht) (hnot _ _ hm hw)
        (mirror_struct_fields r token final i hm fields hf) hbody (ihr hs)
      rw [mirror_structSchema r token final i hm, zipWith_fieldSchema_image] at hstep
      rw [List.map_append]
      exact hstep

end Avro

end Schemata
