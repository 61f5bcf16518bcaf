import Schemata.Proofs.Avro.Rules

/-!
# Exports That Are Accepted

Exactly the graphs that conform are exported as valid schemas.

The export of a graph and the check of the exported document are two walks, of
which the second only sees what the first has written. They are taken together
by one induction over the walk of the export: its fields are read exactly if
they conform (`readFields_iff_conforms`). Whatever the check has met at a point
is what `Conforms` says it has.

The depth to which documents nest matters only to defaults. A default is tried
for a number of steps that the depth of the whole document allows for.

## Main definitions

* `Avro.BodyRead`: What it takes to read the fields of a struct.
* `Avro.ReadAlong`: Fields are read along a part of the walk exactly if they conform.

## Theorems

* `Avro.readFields_iff_conforms`: The fields of an export are accepted exactly
  if they conform.
* `Avro.readAt_iff_typeConforms`: So is the whole of an export.
* `toAvro_eq_ok_iff`: The schema of an export, and when there is one.
-/

namespace Schemata

namespace Avro

/-! ### Depth -/

theorem depth_le_of_fieldType (type : Json) (cardinality : Cardinality) (default : Default) :
    type.depth ≤ (fieldType type cardinality default).1.depth := by
  cases cardinality <;> cases default <;>
    simp only [fieldType, arraySchema, Json.depth, Json.itemsDepth, Json.membersDepth] <;> omega

/-- What the fields of a struct are written with lies three levels below the struct. -/
theorem depth_lt_structSchema (space : Option String) (s : StructType) (fields : List Field)
    (docs : List Json) (hlen : fields.length = docs.length) :
    2 ≤ (structSchema space s (fields.zipWith fieldSchema docs)).depth ∧
      ∀ doc ∈ docs, doc.depth + 3 ≤
        (structSchema space s (fields.zipWith fieldSchema docs)).depth := by
  have hfind : Json.find? "fields" (structMembers space s (fields.zipWith fieldSchema docs))
      = some (.array (fields.zipWith fieldSchema docs)) := by
    simp [structMembers, docMember]
  -- One level each for the record, the list of fields and the field.
  have hlist := depth_le_of_find? _ _ _ hfind
  rw [structSchema_eq, Json.depth]
  rw [Json.depth] at hlist
  refine ⟨by omega, fun doc hm => ?_⟩
  rcases List.getElem_of_mem hm with ⟨k, hk, rfl⟩
  have hitem : fieldSchema fields[k] docs[k] ∈ fields.zipWith fieldSchema docs := by
    refine List.mem_iff_getElem.mpr ⟨k, ?_, List.getElem_zipWith⟩
    rw [List.length_zipWith, hlen, Nat.min_self]
    exact hk
  have hfield := depth_le_of_mem _ _ hitem
  rw [fieldSchema_eq, Json.depth] at hfield
  have htype := depth_le_of_find? _ _ _ (find?_type_fieldMembers fields[k] docs[k])
  have hdoc := depth_le_of_fieldType docs[k] fields[k].cardinality fields[k].default
  omega

/-! ### Fields and all they lead to -/

section

variable (r : Registry) (depth : Nat)

/-- A field and the fields behind it are read one after the other. -/
theorem readFields_cons_iff {read : Members → Validation Slot} (field : Field) {members : Members}
    {rest : List Members} (seen seen' : Seen) (slots : List Slot) (Head : Schema → Seen → Prop)
    {Rest : Seen → List Slot → Prop} {done : Prop}
    (hhead : ∀ result seen₁, read members seen = .ok result seen₁ ↔
      ∃ s, Head s seen₁ ∧ FieldConforms seen₁.complete depth field s ∧ result = slot field s)
    (hrest : ∀ seen₁ more, rest.mapM read seen₁ = .ok more seen' ∧ done ↔ Rest seen₁ more) :
    (members :: rest).mapM read seen = .ok slots seen' ∧ done ↔
      ∃ s seen₁, Head s seen₁ ∧ FieldConforms seen₁.complete depth field s ∧
        ∃ more, Rest seen₁ more ∧ slots = slot field s :: more := by
  rw [run_mapM_cons_eq_ok_iff]
  -- The field is read with what is known before it, and the others with what is known behind it.
  constructor
  · rintro ⟨⟨result, more, seen₁, hread, hmore, rfl⟩, hdone⟩
    rcases (hhead result seen₁).mp hread with ⟨s, hs, hf, rfl⟩
    exact ⟨s, seen₁, hs, hf, more, (hrest seen₁ more).mp ⟨hmore, hdone⟩, rfl⟩
  · rintro ⟨s, seen₁, hs, hf, more, hmore, rfl⟩
    rcases (hrest seen₁ more).mpr hmore with ⟨hmore, hdone⟩
    exact ⟨⟨_, more, seen₁, (hhead _ seen₁).mpr ⟨s, hs, hf, rfl⟩, hmore, rfl⟩, hdone⟩

/-- A field of a type without parts, and the fields behind it. -/
theorem readFields_leaf_iff (bound : Nat) (space : Option String) {written written' : Written}
    (seen seen' : Seen) (field : Field) (fields : List Field) {doc : Json} {es : List Json}
    (slots : List Slot) (final : Written) {schema : Schema}
    (hleaf : leafSchema field.type.core = some schema) (hdoc : LeafDocument depth doc schema)
    (hb : doc.depth + 1 ≤ bound)
    (hrest : ∀ more,
      (fields.zipWith fieldMembers es).mapM (readField (readAt depth (bound + 1)) depth space) seen
          = .ok more seen' ∧ final = written' ↔
        Conforms r depth space written seen fields more final seen') :
    ((field :: fields).zipWith fieldMembers (doc :: es)).mapM
        (readField (readAt depth (bound + 1)) depth space) seen = .ok slots seen' ∧
        final = written' ↔
      Conforms r depth space written seen (field :: fields) slots final seen' := by
  rw [conforms_leaf_iff r depth space written final seen seen' field fields slots schema hleaf,
    List.zipWith_cons_cons, run_mapM_cons_eq_ok_iff]
  -- Nothing is met within the field, so what is known behind it is what was known before it.
  simp only [readField_leaf_eq_ok_iff depth bound space seen _ field doc schema hdoc hb]
  constructor
  · rintro ⟨⟨_, rest, _, ⟨rfl, hf, rfl⟩, hmore, rfl⟩, hfinal⟩
    exact ⟨hf, rest, (hrest rest).mp ⟨hmore, hfinal⟩, rfl⟩
  · rintro ⟨hf, rest, hmore, rfl⟩
    rcases (hrest rest).mpr hmore with ⟨hmore, hfinal⟩
    exact ⟨⟨_, rest, seen, ⟨rfl, hf, rfl⟩, hmore, rfl⟩, hfinal⟩

/-- An enum that was written, wherever it stands. -/
theorem readAt_enumSchema (bound : Nat) (space : Option String) {outer : Option String}
    (hw : outer = none → space = none) (e : EnumType) (seen seen' : Seen)
    (hb : (enumSchema outer e).depth ≤ bound) (schema : Schema) :
    readAt depth bound space (.object (enumMembers outer e)) seen = .ok schema seen' ↔
      EnumConforms e seen schema seen' := by
  -- An object is at least one level deep, so the bound is not used up.
  rcases bound with _ | bound
  · rw [enumSchema_eq, Json.depth] at hb
    omega
  have hkind : Json.find? "type" (enumMembers outer e) = some (.string "enum") := by
    simp [enumMembers, docMember]
  have hlogical : Json.find? "logicalType" (enumMembers outer e) = none := by
    simp [enumMembers, docMember]
  rw [readAt, readWith, readObject, hlogical]
  simp only []
  rw [readPlain, hkind]
  exact readEnum_eq_ok_iff space outer hw e seen seen' schema

/-- A struct that was written, wherever it stands. -/
theorem readAt_structSchema (bound : Nat) (space outer : Option String)
    (hw : outer = none → space = none) (s : StructType) (descriptions : List Members)
    (hd : distinctFields [] descriptions = true) (seen seen' : Seen) (schema : Schema) :
    readAt depth (bound + 1) space (.object (structMembers outer s (descriptions.map .object))) seen
        = .ok schema seen' ↔
      NamesConform s.names ∧ ∃ inner seen₁,
        descriptions.mapM (readField (readAt depth bound) depth (ownSpace s.name))
          (seen.start (inSpace s.name none) (knownAliases s.names)) = .ok inner seen₁ ∧
        schema = .record (inSpace s.name none) inner ∧
        seen' = seen₁.finish (inSpace s.name none) (knownAliases s.names) schema := by
  have hkind : Json.find? "type" (structMembers outer s (descriptions.map .object))
      = some (.string "record") := by
    simp [structMembers, docMember]
  have hlogical : Json.find? "logicalType" (structMembers outer s (descriptions.map .object))
      = none := by
    simp [structMembers, docMember]
  rw [readAt, readWith, readObject, hlogical]
  simp only []
  rw [readPlain, hkind]
  exact readRecord_eq_ok_iff (readAt depth bound) depth space outer hw s descriptions hd seen seen'
    schema

/-- What it takes to read the fields of a struct that is written here, whatever bound allows for
    them. -/
def BodyRead (written : Written) (seen : Seen) (i : Nat) (own : List Field) (docs : List Json)
    (written' : Written) : Prop :=
  ∀ bound inner seen₁ final, (∀ doc ∈ docs, doc.depth + 1 ≤ bound) →
    ((own.zipWith fieldMembers docs).mapM (readField (readAt depth (bound + 1)) depth
        (ownSpace (r.struct i).name)) (seen.start (inSpace (r.struct i).name none)
        (knownAliases (r.struct i).names)) = .ok inner seen₁ ∧ final = written' ↔
      Conforms r depth (ownSpace (r.struct i).name) (.struct i :: written)
        (seen.start (inSpace (r.struct i).name none) (knownAliases (r.struct i).names)) own inner
        final seen₁)

/-- What is written in the end is what the walk has written. -/
theorem BodyRead.written_eq {written written' written'' : Written} {seen seen' : Seen} {i : Nat}
    {own : List Field} {docs : List Json} {schema : Schema}
    (hbody : BodyRead r depth written seen i own docs written')
    (hs : StructConforms r depth written seen i own written'' schema seen') :
    written'' = written' := by
  rcases hs with ⟨_, inner, seen₁, hc, _, _⟩
  refine ((hbody (Json.itemsDepth docs + 1) inner seen₁ written'' fun doc hm => ?_).mpr hc).2
  exact Nat.add_le_add_right (depth_le_of_mem docs doc hm) 1

/-- A struct that was written, wherever it stands, is read as what it conforms to. -/
theorem readAt_structSchema_iff_conforms (ht : r.Tidy) (bound : Nat) (space : Option String)
    {outer : Option String} (hw : outer = none → space = none) (written : Written)
    (seen seen' : Seen) (i : Nat) (own : List Field) (docs : List Json) (written' : Written)
    (ho : (r.struct i).fields = some own) (hlen : own.length = docs.length)
    (hbody : BodyRead r depth written seen i own docs written')
    (hb : (structSchema outer (r.struct i) (own.zipWith fieldSchema docs)).depth ≤ bound)
    (schema : Schema) :
    readAt depth bound space
        (.object (structMembers outer (r.struct i) (own.zipWith fieldSchema docs))) seen
        = .ok schema seen' ↔
      StructConforms r depth written seen i own written' schema seen' := by
  rcases depth_lt_structSchema outer (r.struct i) own docs hlen with ⟨htwo, hdocs⟩
  have hdistinct : distinctFields [] (own.zipWith fieldMembers docs) = true :=
    distinctFields_of_fieldsDistinct own docs [] (ht.fields i own ho) fun _ _ => List.not_mem_nil
  have hobjects : (own.zipWith fieldMembers docs).map Json.object
      = own.zipWith fieldSchema docs := List.map_zipWith
  -- A record is at least two levels deep, and one level is left for its fields.
  rcases bound with _ | _ | bound
  · omega
  · omega
  rw [← hobjects, readAt_structSchema depth (bound + 1) space outer hw (r.struct i) _ hdistinct seen
    seen' schema, StructConforms]
  refine and_congr_right fun _ => exists_congr fun inner => exists_congr fun seen₁ =>
    and_congr_left fun _ => ?_
  rw [← hbody bound inner seen₁ written' fun doc hm => by
    have := hdocs doc hm
    omega]
  exact ⟨fun h => ⟨h, rfl⟩, fun h => h.1⟩

/-- What is shown of a part of the walk: fields with the documents that it writes are read exactly
    if they conform, wherever they stand and whatever bound allows for them. -/
def ReadAlong (outer : Option String) (written : Written) (ts : List Ty) (es : List Json)
    (written' : Written) : Prop :=
  ∀ (fields : List Field) (space : Option String) (bound : Nat) (seen seen' : Seen)
    (slots : List Slot) (final : Written), ts = fields.map Field.type →
    (outer = none → space = none) → (∀ e ∈ es, e.depth + 1 ≤ bound) →
    ((fields.zipWith fieldMembers es).mapM (readField (readAt depth (bound + 1)) depth space) seen
        = .ok slots seen' ∧ final = written' ↔
      Conforms r depth space written seen fields slots final seen')

namespace ReadAlong

variable {r depth} {outer : Option String} {written written₁ written' : Written} {ts : List Ty}
  {es : List Json} {t : Ty}

/-- The fields of a struct are read behind its start. -/
theorem bodyRead {i : Nat} {own : List Field} {docs : List Json}
    (h : ReadAlong r depth (namespaceOf? (r.struct i).name) (.struct i :: written)
      (own.map Field.type) docs written') (seen : Seen) :
    BodyRead r depth written seen i own docs written' := by
  intro bound inner seen₁ final hb
  refine h own _ bound _ seen₁ inner final rfl (fun hn => ?_) hb
  rw [ownSpace, hn]
  rfl

/-- A field of a type without parts. -/
theorem leaf {schema : Schema} (hl : leafSchema t.core = some schema) {e : Json}
    (hdoc : LeafDocument depth e schema) (ih : ReadAlong r depth outer written ts es written') :
    ReadAlong r depth outer written (t :: ts) (e :: es) written' := by
  intro fields space bound seen seen' slots final hts hw hb
  rcases exists_field_of_types hts with ⟨field, fields, rfl, rfl, hrest⟩
  rw [List.forall_mem_cons] at hb
  exact readFields_leaf_iff r depth bound space seen seen' field fields slots final hl hdoc hb.1
    fun more => ih fields space bound seen seen' more final hrest hw hb.2

/-- A reference is read as what has been met under the name. -/
theorem reference {h : Handle} (hcore : t.core = .named h) (hmem : h ∈ written)
    (ih : ReadAlong r depth outer written ts es written') :
    ReadAlong r depth outer written (t :: ts) (.string (r.nameOf h) :: es) written' := by
  intro fields space bound seen seen' slots final hts hw hb
  rcases exists_field_of_types hts with ⟨field, fields, rfl, rfl, hrest⟩
  rw [List.forall_mem_cons] at hb
  rw [List.zipWith_cons_cons, conforms_reference_iff r depth space _ final seen seen'
    field fields slots h hcore hmem,
    readFields_cons_iff depth field seen seen' slots
      (fun s seen₁ => fieldRead? seen space field (r.nameOf h) = some s ∧ seen₁ = seen) ?_
      fun seen₁ more => ih fields space bound seen₁ seen' more final hrest hw hb.2]
  · constructor
    · rintro ⟨s, _, ⟨hs, rfl⟩, hf, hmore⟩
      exact ⟨s, hs, hf, hmore⟩
    · rintro ⟨s, hs, hf, hmore⟩
      exact ⟨s, seen, ⟨hs, rfl⟩, hf, hmore⟩
  · -- A name is read with any bound but zero.
    intro result seen₁
    have hpos : 1 ≤ bound := Nat.le_trans (Nat.le_add_left 1 _) hb.1
    rw [readField_string_eq_ok_iff depth bound space seen seen₁ field _ hpos]
    refine exists_congr fun s => ?_
    rw [and_assoc]
    refine and_congr_right fun _ => and_congr_right fun hseen => ?_
    rw [hseen]

/-- An enum is read where it is defined. -/
theorem enumeration {i : Nat} (hcore : t.core = .named (.enumeration i))
    (hmem : .enumeration i ∉ written)
    (ih : ReadAlong r depth outer (.enumeration i :: written) ts es written') :
    ReadAlong r depth outer written (t :: ts) (enumSchema outer (r.enumeration i) :: es)
      written' := by
  intro fields space bound seen seen' slots final hts hw hb
  rcases exists_field_of_types hts with ⟨field, fields, rfl, rfl, hrest⟩
  rw [List.forall_mem_cons] at hb
  rw [List.zipWith_cons_cons, conforms_enumeration_iff r depth space _ final seen seen'
    field fields slots i hcore hmem,
    readFields_cons_iff depth field seen seen' slots (EnumConforms (r.enumeration i) seen) ?_
      fun seen₁ more => ih fields space bound seen₁ seen' more final hrest hw hb.2]
  exact fun result seen₁ => readField_object_eq_ok_iff depth bound space seen seen₁ field _
    (enumMembers outer (r.enumeration i)) hb.1 (fun c hc s seen₂ =>
      readAt_enumSchema depth c space hw (r.enumeration i) seen seen₂ hc s) result

/-- A struct is read with its fields, and what follows it behind them. -/
theorem struct (ht : r.Tidy) {i : Nat} {own : List Field} {docs : List Json}
    {refs : List Reference} (hcore : t.core = .named (.struct i)) (hmem : .struct i ∉ written)
    (ho : (r.struct i).fields = some own)
    (body : Walk r (namespaceOf? (r.struct i).name) (.struct i :: written) (own.map Field.type)
      docs refs written₁)
    (ihb : ReadAlong r depth (namespaceOf? (r.struct i).name) (.struct i :: written)
      (own.map Field.type) docs written₁)
    (ihr : ReadAlong r depth outer written₁ ts es written') :
    ReadAlong r depth outer written (t :: ts)
      (structSchema outer (r.struct i) (own.zipWith fieldSchema docs) :: es) written' := by
  intro fields space bound seen seen' slots final hts hw hb
  rcases exists_field_of_types hts with ⟨field, fields, rfl, rfl, hrest⟩
  rw [List.forall_mem_cons] at hb
  have hlen : own.length = docs.length := by
    rw [← body.length_eq, List.length_map]
  have hbody := ihb.bodyRead seen
  rw [List.zipWith_cons_cons, conforms_struct_iff r depth space written final seen seen'
    field fields slots i own hcore hmem ho,
    readFields_cons_iff depth field seen seen' slots
      (StructConforms r depth written seen i own written₁) ?_
      fun seen₁ more => ihr fields space bound seen₁ seen' more final hrest hw hb.2]
  · constructor
    · rintro ⟨s, seen₂, hs, hf, hmore⟩
      exact ⟨s, seen₂, written₁, hs, hf, hmore⟩
    · rintro ⟨s, seen₂, written₂, hs, hf, hmore⟩
      -- Whatever is written behind the struct is what the walk has written by then.
      have hsame := hbody.written_eq r depth hs
      rw [hsame] at hs hmore
      exact ⟨s, seen₂, hs, hf, hmore⟩
  · exact fun result seen₂ => readField_object_eq_ok_iff depth bound space seen seen₂ field
      (StructConforms r depth written seen i own written₁)
      (structMembers outer (r.struct i) (own.zipWith fieldSchema docs)) hb.1
      (fun c hc s seen₃ => readAt_structSchema_iff_conforms r depth ht c space hw written
        seen seen₃ i own docs written₁ ho hlen hbody hc s) result

end ReadAlong

/-- The fields of an export are read along its walk exactly if they conform. -/
theorem readFields_iff_conforms (ht : r.Tidy) {outer : Option String} {written written' : Written}
    {ts : List Ty} {es : List Json} {refs : List Reference}
    (hwalk : Walk r outer written ts es refs written') :
    ReadAlong r depth outer written ts es written' := by
  -- The check and the export go through the same parts in the same order.
  induction hwalk with
  | nil =>
      intro fields space bound seen seen' slots final hts hw hb
      rw [eq_comm, List.map_eq_nil_iff] at hts
      rw [hts, List.zipWith_nil_left, run_mapM_nil_eq_ok_iff]
      constructor
      · rintro ⟨⟨rfl, rfl⟩, rfl⟩
        exact .nil _ _ _
      · intro h
        cases h
        exact ⟨⟨rfl, rfl⟩, rfl⟩
  | scalar t kind hcore _ ih =>
      exact ih.leaf (by rw [hcore, leafSchema]) (leafDocument_scalarSchema depth kind)
  | decimal t type hcore _ ih =>
      exact ih.leaf (by rw [hcore, leafSchema]) (leafDocument_decimalSchema depth type)
  | reference t h hcore hmem _ ih => exact ih.reference hcore hmem
  | enumeration t i hcore hmem _ ih => exact ih.enumeration hcore hmem
  | struct written written₁ t docs i own hcore hmem ho body rest ihb ihr =>
      exact .struct ht hcore hmem ho body ihb ihr

/-- The whole of an export is read as what its root conforms to. -/
theorem readAt_iff_typeConforms (ht : r.Tidy) (root : Ty) (e : Json) (refs : List Reference)
    (final : Written) (hwalk : Walk r none [] [root] [e] refs final) (schema : Schema) :
    (∃ seen, readAt depth e.depth none e .empty = .ok schema seen) ↔
      TypeConforms r depth root schema := by
  have hleaf : ∀ leaf, leafSchema root.core = some leaf → LeafDocument depth e leaf →
      ((∃ seen, readAt depth e.depth none e .empty = .ok schema seen) ↔
        TypeConforms r depth root schema) := by
    intro leaf hl hdoc
    have hread : readAt depth e.depth none e .empty = .ok leaf .empty := by
      rcases hdoc with ⟨name, rfl, hp⟩ | ⟨members, rfl, hread⟩
      · rw [readAt_string, readReference_eq_ok_iff, Seen.read?, hp]
        exact ⟨rfl, rfl⟩
      · rw [Json.depth]
        exact hread _ _ _
    rw [typeConforms_leaf_iff r depth root schema leaf hl, hread]
    simp only [EStateM.Result.ok.injEq, exists_and_left, exists_eq', and_true]
  cases hwalk with
  | scalar _ kind hcore _ =>
      exact hleaf _ (by rw [hcore, leafSchema]) (leafDocument_scalarSchema depth kind)
  | decimal _ type hcore _ =>
      exact hleaf _ (by rw [hcore, leafSchema]) (leafDocument_decimalSchema depth type)
  | reference _ _ _ hmem => exact absurd hmem List.not_mem_nil
  | enumeration _ i hcore _ _ =>
      rw [typeConforms_enumeration_iff r depth root schema i hcore]
      exact exists_congr fun seen => readAt_enumSchema depth _ none (fun _ => rfl)
        (r.enumeration i) .empty seen (Nat.le_refl _) schema
  | struct _ written₁ _ docs i own hcore hmem ho body rest =>
      have hlen : own.length = docs.length := by
        rw [← body.length_eq, List.length_map]
      have hbody := (readFields_iff_conforms r depth ht body).bodyRead .empty
      have hread := fun seen => readAt_structSchema_iff_conforms r depth ht
        (structSchema none (r.struct i) (own.zipWith fieldSchema docs)).depth none
        (fun _ => rfl) [] .empty seen i own docs written₁ ho hlen hbody (Nat.le_refl _) schema
      rw [typeConforms_struct_iff r depth root schema i own hcore ho]
      constructor
      · rintro ⟨seen, h⟩
        exact ⟨written₁, seen, (hread seen).mp h⟩
      · rintro ⟨written, seen, hs⟩
        -- What is written in the end is what the walk has written.
        rw [hbody.written_eq r depth hs] at hs
        exact ⟨seen, (hread seen).mpr hs⟩

end

end Avro

open Avro

/-- An export is accepted exactly if the graph conforms, and what it conforms to is the schema of
    the export. -/
theorem toAvro_eq_ok_iff (r : Registry) (ht : r.Tidy) (root : Ty) (schema : Schema) :
    toAvro r root = .ok schema ↔
      ∃ e, toSchema r root = .ok e ∧ TypeConforms r e.depth root schema := by
  -- The check begins with nothing known, and what it knows in the end is dropped.
  have hvalidate : ∀ e, validate e = .ok schema ↔
      ∃ seen, readAt e.depth e.depth none e .empty = .ok schema seen := by
    intro e
    rw [validate, mapError_eq_ok_iff]
    unfold Schema.ofJson readSchema
    rcases readAt e.depth e.depth none e .empty with ⟨found, seen⟩ | ⟨fault, seen⟩
    · simp only [Except.ok.injEq, EStateM.Result.ok.injEq]
      exact ⟨fun h => ⟨seen, h, rfl⟩, fun ⟨_, h, _⟩ => h⟩
    · simp only [reduceCtorEq, exists_false]
  unfold toAvro
  rcases hexport : toSchema r root with err | e
  · simp only [bind, Except.bind, reduceCtorEq, false_and, exists_false]
  · simp only [bind, Except.bind, Except.ok.injEq, exists_eq_left']
    rcases (toSchema_eq_ok_iff r root e).mp hexport with ⟨refs, final, hwalk⟩
    rw [hvalidate, readAt_iff_typeConforms r e.depth ht root e refs final hwalk schema]

end Schemata
