import Schemata.Proofs.Avro.Growth
import Schemata.Proofs.Avro.Order
import Schemata.Proofs.Avro.ReadBack
import Schemata.Proofs.Registry.Bisimulation

/-!
# What Reading a Document Back Shows

Why nothing less than a graph that is written in full comes back the same.

Suppose that a graph is exported, that the document is imported, and that the
two graphs are equal. The imported graph is written in full, since every
imported graph is, and equality carries that over. What is left is to show
that no reference was taken for another.

The walk that wrote the document and the reading that read it are followed
side by side. At a reference the reading has found some type that carries the
name. It is equal to the type that was meant, so it has the same names, and it
is one of those that were defined by then. Names are distinct in the graph, so
it is the image of the type that was meant and no other. Had the name been
captured, the reading would have found the type that captures it.

An equality is a relation between the finished graphs. It can be used in the
middle of a reading because a registry that grows keeps names and fields:
`Registry.Keeps`.

## Main definitions

* `Registry.Keeps`: Names stay as they are, and fields that are assigned.
* `Avro.ResolvesAlong`: What is shown of a part of the walk, given a reading of it.

## Theorems

* `Avro.resolves_of_reading`: Where the graphs are equal every reference of the
  walk resolves.
* `Avro.faithful_of_sameType`: A graph that comes back the same is written in
  full.
-/

namespace Schemata

namespace Registry

/-- Names stay as they are, and fields that are assigned. -/
structure Keeps (r r' : Registry) : Prop where
  holds : ∀ h, r.Holds h → r'.Holds h
  names : ∀ h, r.Holds h → r'.namesOf h = r.namesOf h
  fields : ∀ i fields, (r.struct i).fields = some fields → (r'.struct i).fields = some fields

theorem Keeps.refl (r : Registry) : Keeps r r :=
  ⟨fun _ h => h, fun _ _ => rfl, fun _ _ h => h⟩

theorem Keeps.trans {r r' r'' : Registry} (h : Keeps r r') (h' : Keeps r' r'') : Keeps r r'' where
  holds handle hh := h'.holds handle (h.holds handle hh)
  names handle hh := (h'.names handle (h.holds handle hh)).trans (h.names handle hh)
  fields i fields hf := h'.fields i fields (h.fields i fields hf)

theorem Below.keeps (r r' : Registry) (h : Below r r') : Keeps r r' where
  holds := h.holds
  names := h.namesOf_eq
  fields i fields hf := by
    rw [h.struct_eq i (r.lt_of_struct_fields i fields hf)]
    exact hf

/-- Fields are assigned where there are none. -/
theorem keeps_of_setFields (r r' : Registry) (i : Nat) (fields : List Field)
    (h : r.setFields i fields = .ok r') : Keeps r r' := by
  rcases (r.setFields_eq_ok_iff r' i fields).mp h with ⟨hnone, _, _, rfl⟩
  refine ⟨fun handle => (r.holds_setStruct i _ handle).mpr,
    fun handle _ => r.namesOf_setStruct i _ handle rfl, fun j fields' hf => ?_⟩
  by_cases hj : j = i
  · rw [hj, hnone] at hf
    exact nomatch hf
  · rw [r.struct_setStruct_other i j _ hj]
    exact hf

end Registry

namespace Avro

open Registry

/-! ### The parts of a reading, by the type that is read -/

section

variable {space : Option String} {q q' : Registry} {doc : Json} {docs : List Json} {t : Ty}
  {ts : List Ty}

/-- A type without a name is read without the registry. -/
theorem Reading.rest_of_not_named (h : Reading space q (doc :: docs) (t :: ts) q')
    (hk : ∀ members, doc = .object members →
      ∃ kind, Json.find? "type" members = some (.string kind)) (ht : ∀ handle, t ≠ .named handle) :
    Reading space q docs ts q' := by
  cases h with
  | leaf _ _ rest => exact rest
  | reference _ handle => exact absurd rfl (ht handle)
  | wrapped _ members nested _ hnested _ _ =>
      rcases hk members rfl with ⟨kind, hkind⟩
      rw [hkind, Option.some.injEq] at hnested
      exact absurd hnested Json.noConfusion
  | _ => exact absurd rfl (ht _)

/-- A name that is read as a named type is resolved. -/
theorem Reading.resolve_of_string {name : String} (h : Reading space q (.string name :: docs)
    (t :: ts) q') (handle : Handle) (ht : t = .named handle) :
    ¬ IsPrimitive name ∧ resolve q name space = .ok handle ∧ Reading space q docs ts q' := by
  cases h with
  | leaf _ hleaf _ => exact absurd ht (hleaf.writable.2 handle)
  | reference _ _ hn hp hr rest =>
      rw [Ty.named.injEq] at ht
      cases hn with
      | text _ => exact ⟨hp, ht ▸ hr, rest⟩

/-- The definition of an enum is read as an enum. -/
theorem Reading.enum_of_object {members : Members} (h : Reading space q (.object members :: docs)
    (t :: ts) q') (handle : Handle) (ht : t = .named handle)
    (hk : Json.find? "type" members = some (.string "enum")) :
    ∃ e, EnumRead members space e ∧ t = .named (.enumeration q.enums.length) ∧
      Reading space (q.appendEnum e) docs ts q' := by
  -- The word for the kind is one for definitions, and a struct has another word.
  cases h with
  | leaf _ hleaf _ => exact absurd ht (hleaf.writable.2 handle)
  | reference _ _ hn =>
      cases hn with
      | object _ kind hkind hd _ =>
          rw [hk, Option.some.injEq, Json.string.injEq] at hkind
          exact absurd (by rw [← hkind]; decide) hd
  | wrapped _ _ nested _ hnested _ _ =>
      rw [hk, Option.some.injEq] at hnested
      exact absurd hnested Json.noConfusion
  | enumeration _ e he _ rest => exact ⟨e, he, rfl, rest⟩
  | struct _ _ _ _ _ _ _ hs =>
      rcases hs.kind with hkind | hkind <;>
        simp only [hk, Option.some.injEq, Json.string.injEq, String.reduceEq] at hkind

/-- The definition of a struct is read as a struct. -/
theorem Reading.struct_of_object {members : Members} (h : Reading space q (.object members :: docs)
    (t :: ts) q') (handle : Handle) (ht : t = .named handle)
    (hk : Json.find? "type" members = some (.string "record")) :
    ∃ s items forms fields q₁ q₂, RecordRead members space s items ∧
      FieldsRead items forms fields ∧
      Reading (namespaceOf? s.names.name) (q.appendStruct s) (forms.map FieldForm.type)
        (fields.map Field.type) q₁ ∧
      q₁.setFields q.structs.length fields = .ok q₂ ∧ t = .named (.struct q.structs.length) ∧
      Reading space q₂ docs ts q' := by
  -- The word for the kind is one for definitions, and an enum has another word.
  cases h with
  | leaf _ hleaf _ => exact absurd ht (hleaf.writable.2 handle)
  | reference _ _ hn =>
      cases hn with
      | object _ kind hkind hd _ =>
          rw [hk, Option.some.injEq, Json.string.injEq] at hkind
          exact absurd (by rw [← hkind]; decide) hd
  | wrapped _ _ nested _ hnested _ _ =>
      rw [hk, Option.some.injEq] at hnested
      exact absurd hnested Json.noConfusion
  | enumeration _ e he _ _ =>
      have hkind := he.kind
      simp only [hk, Option.some.injEq, Json.string.injEq, String.reduceEq] at hkind
  | struct q₁ q₂ _ s items forms fields hs _ hf body hset rest =>
      exact ⟨s, items, forms, fields, q₁, q₂, hs, hf, body, hset, rfl, rest⟩

/-- An enum that was written is read as the enum that it was written for. -/
theorem Reading.rest_of_enumSchema {e : EnumType} {handle : Handle} (hfit : e.names.Fit)
    (h : Reading space q (enumSchema space e :: docs) (.named handle :: ts) q') :
    Reading space (q.appendEnum e) docs ts q' := by
  rw [enumSchema_eq] at h
  rcases h.enum_of_object handle rfl (enumRead_enumMembers _ e hfit).kind with ⟨e', he, _, hrest⟩
  rwa [eq_of_enumRead e e' hfit he] at hrest

/-- A struct that was written is read as a struct of its names: behind its start come its fields,
    and behind these what follows it. -/
theorem Reading.parts_of_structSchema {s : StructType} {fields : List Field} {inner : List Json}
    {handle : Handle} (hfit : s.names.Fit) (hlen : fields.length = inner.length)
    (hsingle : ∀ doc ∈ inner, Single doc)
    (h : Reading space q (structSchema space s (fields.zipWith fieldSchema inner) :: docs)
      (.named handle :: ts) q') :
    ∃ s' fields' q₁ q₂, s'.names = s.names ∧ handle = .struct q.structs.length ∧
      Reading (namespaceOf? s.names.name) (q.appendStruct s') inner (fields'.map Field.type) q₁ ∧
      q₁.setFields q.structs.length fields' = .ok q₂ ∧ Reading space q₂ docs ts q' := by
  rw [structSchema_eq] at h
  rcases h.struct_of_object handle rfl (by simp [structMembers, docMember]) with
    ⟨s', items, forms, fields', q₁, q₂, hrecord, hforms, hbody, hset, hhandle, hrest⟩
  rcases names_of_recordRead s s' _ items hfit hrecord with ⟨hnames, rfl⟩
  -- The documents of the types come back as they were put into the fields.
  rw [types_of_fieldsRead fields inner forms fields' hlen hsingle hforms, hnames] at hbody
  rw [Ty.named.injEq] at hhandle
  exact ⟨s', fields', q₁, q₂, hnames, hhandle, hbody, hset, hrest⟩

end

/-! ### Side by side -/

theorem named_of_typesMatch (r q : Registry) (rel : Nat → Nat → Prop) (h : Handle) (t : Ty)
    (hm : TypesMatch r q rel (.named h) t) : ∃ handle, t = .named handle := by
  cases hm with
  | enumeration _ j _ => exact ⟨_, rfl⟩
  | struct _ j _ => exact ⟨_, rfl⟩

theorem not_named_of_typesMatch (r q : Registry) (rel : Nat → Nat → Prop) (s t : Ty)
    (hm : TypesMatch r q rel s t) (hs : ∀ h, s ≠ .named h) (h : Handle) : t ≠ .named h := by
  cases hm with
  | scalar kind => exact nofun
  | decimal type => exact nofun
  | enumeration i j _ => exact absurd rfl (hs _)
  | struct i j _ => exact absurd rfl (hs _)
  | unparsed s t _ => exact nofun

/-- What stands for a scalar names the kind of its type, if it is an object. -/
theorem kind_of_scalarSchema (kind : ScalarKind) (members : Members)
    (h : scalarSchema kind = .object members) :
    ∃ name, Json.find? "type" members = some (.string name) := by
  cases kind <;> first
    | exact absurd h Json.noConfusion
    | (rw [scalarSchema, logicalSchema, Json.object.injEq] at h
       exact ⟨_, by rw [← h]; rfl⟩)

theorem kind_of_decimalSchema (type : DecimalType) (members : Members)
    (h : decimalSchema type = .object members) :
    ∃ name, Json.find? "type" members = some (.string name) := by
  rcases (decimalSchema_eq_object_iff type members).mp h with ⟨_, _, rfl⟩
  exact ⟨_, rfl⟩

/-- A reference resolves if what has been found for it has the names of what was meant. -/
theorem resolves_of_resolve (r q : Registry) {written : Written} (he : Echoes r q written)
    (hn : written.Nodup) (hd : r.Distinct) (hh : ∀ h ∈ written, r.Holds h)
    {space : Option String} (h found : Handle) (hm : h ∈ written)
    (hp : ¬ IsPrimitive (r.nameOf h)) (hr : resolve q (r.nameOf h) space = .ok found)
    (hnames : q.namesOf found = r.namesOf h) : Reference.Resolves r ⟨space, written, h⟩ := by
  -- What has been found is the image of what was meant, since names are distinct.
  have hfound : found = image written h := by
    rcases (he.holds_iff hn found).mp (resolve_holds _ found hr) with ⟨h', hm', rfl⟩
    rw [he.namesOf h' hm'] at hnames
    rw [hd h h' (r.nameOf h) (hh h hm) (hh h' hm') Names.carries_name
      (by rw [hnames]; exact Names.carries_name)]
  refine ⟨hp, fun h' hm' hc => ?_⟩
  -- Whoever carries the name within the namespace is found first.
  have hfind : q.find? (qualify (r.nameOf h) space) = some (image written h') := by
    rw [q.find?_eq_some_iff (he.distinct hn hd hh)]
    refine ⟨(he.holds_iff hn _).mpr ⟨h', hm', rfl⟩, ?_⟩
    rw [he.namesOf h' hm']
    exact hc
  rcases (resolve_eq_ok_iff q _ space found).mp hr with hf | ⟨hnone, _⟩
  · rw [hfind, Option.some.injEq, hfound] at hf
    exact image_injective written h' h hm' hf
  · rw [hfind] at hnone
    cases hnone

/-- The fields that a struct is given in a reading match those of the struct that it equals. -/
theorem typesMatch_of_setFields (r q q₁ q₂ : Registry) (rel : Nat → Nat → Prop)
    (hb : Bisimulation r q rel) (i j : Nat) (hrel : rel i j) (fields fields' : List Field)
    (hf : (r.struct i).fields = some fields) (hj : j < q₁.structs.length)
    (hset : q₁.setFields j fields' = .ok q₂) (hkeeps : Keeps q₂ q) :
    List.Forall₂ (TypesMatch r q rel) (fields.map Field.type) (fields'.map Field.type) := by
  rcases (q₁.setFields_eq_ok_iff q₂ j fields').mp hset with ⟨_, _, _, hq₂⟩
  have hq := hkeeps.fields j (fields'.map (·.stamp (q₁.owner j))) (by
    rw [hq₂, q₁.struct_setStruct_self _ _ hj])
  have hmatch := (hb i j hrel).2.2
  rw [hf, hq] at hmatch
  cases hmatch with
  | some hmatch =>
      rw [List.forall₂_map_left_iff, List.forall₂_map_right_iff]
      exact (List.forall₂_map_right_iff.mp hmatch).imp fun _ _ hab => hab.2

section

variable (r q : Registry) (rel : Nat → Nat → Prop) (root : Ty)

/-- What is shown of a part of the walk. A reading of what it writes is given, with all that is
    written before it in place, and what is read matches what was written. Then what is written
    by the end of the part is in place too, and its references resolve. -/
def ResolvesAlong (space : Option String) (written : Written) (ts : List Ty) (es : List Json)
    (refs : List Reference) (written' : Written) : Prop :=
  ∀ q₁ q₂ ts', Reading space q₁ es ts' q₂ → Echoes r q₁ written → written.Nodup →
    (∀ h ∈ written, r.Reaches root (.named h)) → (∀ t ∈ ts, r.Reaches root t) →
    List.Forall₂ (TypesMatch r q rel) ts ts' → Keeps q₂ q →
    Echoes r q₂ written' ∧ ∀ ref ∈ refs, ref.Resolves r

end

namespace ResolvesAlong

variable {r q : Registry} {rel : Nat → Nat → Prop} {root : Ty} {space : Option String}
  {written written₁ written' : Written} {ts : List Ty} {es : List Json}
  {refs refs' : List Reference} {t : Ty}

/-- A type without a name leaves the registry as it is. -/
theorem leaf (hp : Plain r root) {u : Ty} (hc : t.core = u) (hu : ∀ h, u ≠ .named h) {e : Json}
    (hk : ∀ members, e = .object members →
      ∃ kind, Json.find? "type" members = some (.string kind))
    (ih : ResolvesAlong r q rel root space written ts es refs written') :
    ResolvesAlong r q rel root space written (t :: ts) (e :: es) refs written' := by
  intro q₁ q₂ ts' hread he hn hw hts hmatch hkeeps
  rcases List.forall_mem_cons.mp hts with ⟨hhead, htail⟩
  cases hmatch with
  | cons hm hmatch =>
      rw [hp.eq_of_core r root t _ hhead hc] at hm
      exact ih q₁ q₂ _ (hread.rest_of_not_named hk (not_named_of_typesMatch r q rel u _ hm hu)) he
        hn hw htail hmatch hkeeps

/-- What has been found for a reference matches what was meant, so it has the same names. -/
theorem reference (hp : Plain r root) (hd : r.Distinct) (hb : Bisimulation r q rel) {h : Handle}
    (hc : t.core = .named h) (hm : h ∈ written)
    (ih : ResolvesAlong r q rel root space written ts es refs written') :
    ResolvesAlong r q rel root space written (t :: ts) (.string (r.nameOf h) :: es)
      (⟨space, written, h⟩ :: refs) written' := by
  intro q₁ q₂ ts' hread he hn hw hts hmatch hkeeps
  rcases List.forall_mem_cons.mp hts with ⟨hhead, htail⟩
  cases hmatch with
  | cons hmatch₁ hmatch =>
      rw [hp.eq_of_core r root t _ hhead hc] at hmatch₁
      rcases named_of_typesMatch r q rel h _ hmatch₁ with ⟨found, rfl⟩
      rcases hread.resolve_of_string found rfl with ⟨hprim, hres, hrest⟩
      -- The graphs are equal in the end, and names stay as they are until then.
      have hkeep := (hrest.grows.below.keeps _ _).trans hkeeps
      rcases ih q₁ q₂ _ hrest he hn hw htail hmatch hkeeps with ⟨he', hrefs⟩
      refine ⟨he', List.forall_mem_cons.mpr ⟨?_, hrefs⟩⟩
      refine resolves_of_resolve r q₁ he hn hd (hp.holds r root hw) h found hm hprim hres ?_
      rw [← hkeep.names found (resolve_holds _ found hres)]
      exact r.namesOf_eq_of_typesMatch q rel hb h found hmatch₁

/-- An enum is read as the one that it was written for, whatever it is matched with. -/
theorem enumeration (hp : Plain r root) {i : Nat} (hc : t.core = .named (.enumeration i))
    (hm : .enumeration i ∉ written)
    (ih : ResolvesAlong r q rel root space (.enumeration i :: written) ts es refs written') :
    ResolvesAlong r q rel root space written (t :: ts)
      (enumSchema space (r.enumeration i) :: es) refs written' := by
  intro q₁ q₂ ts' hread he hn hw hts hmatch hkeeps
  rcases List.forall_mem_cons.mp hts with ⟨hhead, htail⟩
  rw [hp.eq_of_core r root t _ hhead hc] at hmatch hhead
  cases hmatch with
  | cons hmatch₁ hmatch =>
      rcases named_of_typesMatch r q rel _ _ hmatch₁ with ⟨found, rfl⟩
      exact ih _ q₂ _ (hread.rest_of_enumSchema (hp.names _ hhead)) (he.appendEnum r q₁ i)
        (List.nodup_cons.mpr ⟨hm, hn⟩) (List.forall_mem_cons.mpr ⟨hhead, hw⟩) htail hmatch hkeeps

/-- The fields of a struct are read behind its start, and what follows it behind its fields. -/
theorem struct (hp : Plain r root) (hb : Bisimulation r q rel) {i : Nat} {fields : List Field}
    {docs : List Json} (hc : t.core = .named (.struct i)) (hm : .struct i ∉ written)
    (hf : (r.struct i).fields = some fields)
    (body : Walk r (namespaceOf? (r.struct i).name) (.struct i :: written)
      (fields.map Field.type) docs refs written₁)
    (ihb : ResolvesAlong r q rel root (namespaceOf? (r.struct i).name) (.struct i :: written)
      (fields.map Field.type) docs refs written₁)
    (ihr : ResolvesAlong r q rel root space written₁ ts es refs' written') :
    ResolvesAlong r q rel root space written (t :: ts)
      (structSchema space (r.struct i) (fields.zipWith fieldSchema docs) :: es) (refs ++ refs')
      written' := by
  intro q₁ q₂ ts' hread he hn hw hts hmatch hkeeps
  rcases List.forall_mem_cons.mp hts with ⟨hhead, htail⟩
  rw [hp.eq_of_core r root t _ hhead hc] at hmatch hhead
  cases hmatch with
  | cons hmatch₁ hmatch =>
      rcases named_of_typesMatch r q rel _ _ hmatch₁ with ⟨found, rfl⟩
      have hlen : fields.length = docs.length := by
        rw [← body.length_eq, List.length_map]
      rcases hread.parts_of_structSchema (hp.names _ hhead) hlen body.single with
        ⟨s, fields', q₃, q₄, hnames, rfl, hbody, hset, hrest⟩
      -- What the registry keeps from here on it has in the end, where the graphs are equal.
      have hkeep₄ := (hrest.grows.below.keeps _ _).trans hkeeps
      have hkeep₃ := (q₃.keeps_of_setFields q₄ _ _ hset).trans hkeep₄
      have hplace := hbody.grows.below.lt_of_appendStruct
      have hmatchFields : List.Forall₂ (TypesMatch r q rel) (fields.map Field.type)
          (fields'.map Field.type) := by
        cases hmatch₁ with
        | struct _ _ hrel =>
            exact typesMatch_of_setFields r q q₃ q₄ rel hb i _ hrel fields fields' hf hplace hset
              hkeep₄
      have hfields := hhead.fields r root i fields hf
      have hcons : ∀ h ∈ Handle.struct i :: written, r.Reaches root (.named h) :=
        List.forall_mem_cons.mpr ⟨hhead, hw⟩
      have hnodup := List.nodup_cons.mpr ⟨hm, hn⟩
      rcases ihb _ q₃ _ hbody (he.appendStruct r q₁ written i s hnames) hnodup hcons hfields
        hmatchFields hkeep₃ with ⟨he₃, hrefs₁⟩
      -- The names of the struct are in place from its start, so its fields change nothing there.
      have he₄ : Echoes r q₄ written₁ := by
        rcases (q₃.setFields_eq_ok_iff q₄ _ fields').mp hset with ⟨_, _, _, rfl⟩
        exact he₃.setStruct r q₃ written₁ q₁.structs.length _ rfl
      rcases ihr q₄ q₂ _ hrest he₄ (body.nodup hnodup) (body.reached root hcons hfields) htail
        hmatch hkeeps with ⟨he', hrefs₂⟩
      exact ⟨he', fun ref hmem => (List.mem_append.mp hmem).elim (hrefs₁ ref) (hrefs₂ ref)⟩

end ResolvesAlong

/-- Where the graphs are equal every reference of the walk resolves. -/
theorem resolves_of_reading (r q : Registry) (rel : Nat → Nat → Prop) (root : Ty)
    (hp : Plain r root) (hd : r.Distinct) (hb : Bisimulation r q rel) {space : Option String}
    {written written' : Written} {ts : List Ty} {es : List Json} {refs : List Reference}
    (hwalk : Walk r space written ts es refs written') :
    ResolvesAlong r q rel root space written ts es refs written' := by
  induction hwalk with
  | nil =>
      intro q₁ q₂ ts' hread he _ _ _ hmatch _
      cases hmatch
      cases hread
      exact ⟨he, fun ref hm => absurd hm List.not_mem_nil⟩
  | scalar t kind hc _ ih => exact ih.leaf hp hc nofun (kind_of_scalarSchema kind)
  | decimal t type hc _ ih => exact ih.leaf hp hc nofun (kind_of_decimalSchema type)
  | reference t h hc hm _ ih => exact ih.reference hp hd hb hc hm
  | enumeration t i hc hm _ ih => exact ih.enumeration hp hc hm
  | struct written written₁ t docs i fields hc hm hf body _ ihb ihr =>
      exact .struct hp hb hc hm hf body ihb ihr

/-! ### Graphs that come back the same -/

theorem sameDefault_literal (a b : Default) (value : Json) (hb : b = .literal value)
    (h : a.same b = true) : ∃ value', a = .literal value' := by
  rw [hb] at h
  cases a with
  | none => exact nomatch h
  | null => exact nomatch h
  | literal value' => exact ⟨value', rfl⟩

theorem writable_of_typesMatch (r q : Registry) (rel : Nat → Nat → Prop) (s t : Ty)
    (hm : TypesMatch r q rel s t) (ht : t.Writable) : s.Writable := by
  cases hm with
  | scalar kind => exact ht
  | decimal type => exact ht
  | enumeration i j _ => trivial
  | struct i j _ => trivial
  | unparsed s t _ => exact ht.elim

/-- A graph is written in full, apart from what references stand for, if it equals one that
    is. -/
theorem plain_of_bisimulation (r q : Registry) (rel : Nat → Nat → Prop) (s t : Ty)
    (hb : Bisimulation r q rel) (hm : TypesMatch r q rel s t) (hp : Plain q t)
    (hheld : ∀ h, r.Reaches s (.named h) → r.Holds h) : Plain r s where
  complete := by
    -- A struct that can be reached is matched by one that can be reached, and that one has fields.
    refine ⟨hheld, fun i hi => ?_⟩
    rcases r.reaches_of_bisimulation q rel hb s t hm _ hi with ⟨v, hv, hmatch⟩
    cases hmatch with
    | struct _ j hrel =>
        rcases hp.complete.assigned j hv with ⟨fields, hf⟩
        have hfields := (hb i j hrel).2.2
        rw [hf] at hfields
        rcases hi : (r.struct i).fields with _ | fields'
        · rw [hi] at hfields
          cases hfields
        · exact ⟨fields', rfl⟩
  start := writable_of_typesMatch r q rel s t hm hp.start
  fields := by
    intro i fields hi hf field hfield
    rcases r.reaches_of_bisimulation q rel hb s t hm _ hi with ⟨v, hv, hmatch⟩
    cases hmatch with
    | struct _ j hrel =>
        have hfields := (hb i j hrel).2.2
        rw [hf] at hfields
        rcases hj : (q.struct j).fields with _ | fields'
        · rw [hj] at hfields
          cases hfields
        rw [hj] at hfields
        cases hfields with
        | some hfields =>
            rcases List.forall₂_iff_get.mp hfields with ⟨hlen, hget⟩
            rcases List.mem_iff_getElem.mp hfield with ⟨k, hk, rfl⟩
            rcases hget k hk (hlen ▸ hk) with ⟨hhead, htype⟩
            have hw := hp.fields j fields' hv hj fields'[k] (List.getElem_mem (hlen ▸ hk))
            simp only [sameFieldHead, Bool.and_eq_true, decide_eq_true_eq] at hhead
            refine ⟨writable_of_typesMatch r q rel _ _ htype hw.1, fun hc => ?_⟩
            -- A list has a literal for its default on both
            -- sides, since the heads of the fields agree.
            rcases hw.2 (hhead.1.2.symm.trans hc) with ⟨value, hvalue⟩
            exact sameDefault_literal _ _ value hvalue hhead.2
  names := by
    intro h hr
    rcases r.reaches_of_bisimulation q rel hb s t hm _ hr with ⟨v, hv, hmatch⟩
    rcases named_of_typesMatch r q rel h v hmatch with ⟨h', rfl⟩
    rw [← r.namesOf_eq_of_typesMatch q rel hb h h' hmatch]
    exact hp.names h' hv

/-- A graph that comes back the same is written in full. -/
theorem faithful_of_sameType (r : Registry) (root : Ty) (ht : r.Tidy)
    (hheld : ∀ h, r.Reaches root (.named h) → r.Holds h) (e : Json) (token : Nat) (q : Registry)
    (t : Ty) (hexport : toSchema r root = .ok e) (himport : fromSchema token e = .ok (q, t))
    (hsame : r.sameType root q t = true) : Faithful r root := by
  rcases r.bisimilar_of_sameType q root t hsame with ⟨rel, hb, hm⟩
  have hplain := (plain_of_import token e q t himport).1
  have hp := plain_of_bisimulation r q rel root t hb hm hplain hheld
  refine ⟨hp, fun e' refs written hwalk => ?_⟩
  -- Every walk of the root writes the one export, which has been read.
  have he := (toSchema_eq_ok_iff r root e').mpr ⟨refs, written, hwalk⟩
  rw [hexport, Except.ok.injEq] at he
  rw [← he] at hwalk
  exact (resolves_of_reading r q rel root hp ht.distinct hb hwalk _ q [t]
    ((fromSchema_eq_ok_iff token e q t).mp himport) ⟨rfl, rfl⟩ List.nodup_nil
    (fun h hmem => absurd hmem List.not_mem_nil)
    (Reaches.of_mem_singleton r root) (.cons hm .nil) (.refl q)).2

end Avro

end Schemata
