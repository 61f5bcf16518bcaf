import Schemata.Proofs.Avro.Faithful
import Schemata.Proofs.Avro.Reading

/-!
# What an Import Adds

How a registry has grown when a part of a document has been imported.

An import fails or it succeeds, and in between it is never quite one or the
other: while the fields of a record are read the record is registered and has
no fields. A statement about whole registries would not get past that. `Grows`
compares the registry before a part with the one after it and speaks only of
the types that were added. All of those have their fields again, since the
records that are still open were opened before.

What is added is written in full, apart from what references stand for, and it
can be reached from the types of the part. Both are needed for a document as a
whole: its graph holds nothing but what its root leads to, and all of that can
be written down.

## Main definitions

* `Registry.Admits`: A type stands behind the name of a type.
* `Avro.Grows`: What has been added is closed, distinct and reachable.

## Theorems

* `Avro.Grows.append`: Growth by one part and then by another.
* `Avro.grows_appendEnum`, `Avro.grows_record`: Growth by a definition.
* `Avro.Reading.grows`: Growth by a reading.
* `Avro.plain_of_import`: The graph of a document is written in full, apart
  from what references stand for.
-/

namespace Schemata

/-- If the type has a name, a type stands behind it. -/
def Registry.Admits (r : Registry) (t : Ty) : Prop :=
  ∀ h, t = .named h → r.Holds h

theorem Registry.Below.admits {r r' : Registry} (hb : r.Below r') {t : Ty} (h : r.Admits t) :
    r'.Admits t :=
  fun handle ht => hb.holds handle (h handle ht)

namespace Avro

/-- The second registry has grown out of the first by what some types are made of. -/
structure Grows (r r' : Registry) (ts : List Ty) : Prop where
  below : r.Below r'
  distinct : r.Distinct → r'.Distinct
  closed : ∀ i, r.structs.length ≤ i → i < r'.structs.length →
    ∃ fields, (r'.struct i).fields = some fields ∧ FieldsDistinct fields ∧
      ∀ field ∈ fields, field.Writable ∧ r'.Admits field.type
  fit : ∀ h, ¬ r.Holds h → r'.Holds h → (r'.namesOf h).Fit
  types : ∀ t ∈ ts, t.Writable ∧ r'.Admits t
  reached : ∀ h, ¬ r.Holds h → r'.Holds h → ∃ t ∈ ts, r'.Reaches t (.named h)

theorem Grows.refl (r : Registry) (ts : List Ty) (hts : ∀ t ∈ ts, t.Writable ∧ r.Admits t) :
    Grows r r ts where
  below := .refl r
  distinct := id
  closed _ hi hi' := absurd hi' (Nat.not_lt_of_le hi)
  fit _ hn hh := absurd hh hn
  types := hts
  reached _ hn hh := absurd hh hn

/-- A type that adds nothing. -/
theorem Grows.single {r : Registry} (t : Ty) (hw : t.Writable) (ha : r.Admits t) :
    Grows r r [t] := by
  refine .refl r [t] fun u hu => ?_
  rw [List.mem_singleton] at hu
  rw [hu]
  exact ⟨hw, ha⟩

theorem Grows.of_not_named (r : Registry) (t : Ty) (hw : t.Writable)
    (hn : ∀ handle, t ≠ .named handle) : Grows r r [t] :=
  .single t hw fun handle he => absurd he (hn handle)

/-- Growth by one part and then by another. -/
theorem Grows.append {r r₁ r₂ : Registry} (ts : List Ty) {us : List Ty} (h : Grows r r₁ ts)
    (h' : Grows r₁ r₂ us) : Grows r r₂ (ts ++ us) where
  below := h.below.trans h'.below
  distinct hd := h'.distinct (h.distinct hd)
  -- What is added was added by the first part or by the second.
  closed i hi hi' := by
    by_cases hi₁ : i < r₁.structs.length
    · rcases h.closed i hi hi₁ with ⟨fields, hf, hd, hw⟩
      rw [h'.below.struct_eq i hi₁]
      exact ⟨fields, hf, hd, fun field hm =>
        ⟨(hw field hm).1, h'.below.admits (hw field hm).2⟩⟩
    · exact h'.closed i (Nat.le_of_not_lt hi₁) hi'
  fit handle hn hh := by
    by_cases hh₁ : r₁.Holds handle
    · rw [h'.below.namesOf_eq handle hh₁]
      exact h.fit handle hn hh₁
    · exact h'.fit handle hh₁ hh
  types t ht := by
    rcases List.mem_append.mp ht with ht | ht
    · exact ⟨(h.types t ht).1, h'.below.admits (h.types t ht).2⟩
    · exact h'.types t ht
  reached handle hn hh := by
    by_cases hh₁ : r₁.Holds handle
    · rcases h.reached handle hn hh₁ with ⟨t, ht, hr⟩
      exact ⟨t, List.mem_append_left _ ht, .mono r₁ r₂ h'.below.sameWays _ _ hr⟩
    · rcases h'.reached handle hh₁ hh with ⟨t, ht, hr⟩
      exact ⟨t, List.mem_append_right _ ht, hr⟩

/-- Growth by the definition of an enum. -/
theorem grows_appendEnum {r : Registry} (e : EnumType) (hu : r.Unused e.names) (hf : e.names.Fit) :
    Grows r (r.appendEnum e) [.named (.enumeration r.enums.length)] where
  below := .appendEnum e
  distinct := r.distinct_appendEnum e hu
  -- No struct is added.
  closed i hi hi' := absurd hi' (Nat.not_lt_of_le hi)
  -- The only handle that is new is the one of the enum.
  fit h hn hh := by
    rcases (r.holds_appendEnum_iff e h).mp hh with hh | rfl
    · exact absurd hh hn
    · rw [Registry.namesOf, r.enumeration_appendEnum_length e]
      exact hf
  types t ht := by
    rw [List.mem_singleton] at ht
    rw [ht]
    refine ⟨trivial, fun h he => ?_⟩
    rw [Ty.named.injEq] at he
    exact (r.holds_appendEnum_iff e h).mpr (Or.inr he.symm)
  reached h hn hh := by
    rcases (r.holds_appendEnum_iff e h).mp hh with hh | rfl
    · exact absurd hh hn
    · exact ⟨_, List.mem_singleton_self _, .root⟩

/-- What is new behind a record is the record itself, or new behind its start. -/
theorem new_of_appendStruct {r : Registry} (s : StructType) (h : Handle) (hn : ¬ r.Holds h) :
    h = .struct r.structs.length ∨ ¬ (r.appendStruct s).Holds h := by
  rw [r.holds_appendStruct_iff s h]
  by_cases he : h = .struct r.structs.length
  · exact Or.inl he
  · exact Or.inr fun ha => ha.elim hn he

/-- Growth by the definition of a record: it is registered without fields, its fields are
    read, and it takes them in. -/
theorem grows_record {r : Registry} (r₁ : Registry) (s : StructType) (fields : List Field)
    (hu : r.Unused s.names) (hfit : s.names.Fit) (hs : s.fields = none)
    (h : Grows (r.appendStruct s) r₁ (fields.map Field.type)) (hd : FieldsDistinct fields)
    (hw : ∀ field ∈ fields, field.Writable) (owner : Owner) :
    Grows r (r₁.setStruct r.structs.length
      { r₁.struct r.structs.length with fields := some (fields.map (·.stamp owner)) })
      [.named (.struct r.structs.length)] := by
  have hlt := h.below.lt_of_appendStruct
  have hopen := h.below.struct_of_appendStruct
  set closing : StructType :=
    { r₁.struct r.structs.length with fields := some (fields.map (·.stamp owner)) } with hclosing
  set r₂ := r₁.setStruct r.structs.length closing with hr₂
  -- Only the fields of the record itself change when it takes them in.
  have hself : r₂.struct r.structs.length = closing := r₁.struct_setStruct_self _ _ hlt
  have hother : ∀ i, i ≠ r.structs.length → r₂.struct i = r₁.struct i :=
    fun i hi => r₁.struct_setStruct_other _ _ _ hi
  have hholds : ∀ handle, r₂.Holds handle ↔ r₁.Holds handle :=
    r₁.holds_setStruct _ closing
  have hnames : ∀ handle, r₂.namesOf handle = r₁.namesOf handle :=
    fun handle => r₁.namesOf_setStruct _ closing handle rfl
  have hadmits : ∀ t, r₁.Admits t → r₂.Admits t :=
    fun t ha handle ht => (hholds handle).mpr (ha handle ht)
  exact {
    below := ((Registry.Below.appendStruct s).trans h.below).setStruct _ (Nat.le_refl _)
    distinct := fun hdist =>
      Registry.distinct_of_namesOf_eq r₁ r₂ (fun handle => (hholds handle).mp)
        (fun handle _ => hnames handle) (h.distinct (r.distinct_appendStruct s hu hdist))
    closed := by
      intro i hi hi'
      by_cases he : i = r.structs.length
      · refine ⟨fields.map (·.stamp owner), by rw [he, hself], ?_, fun field hm => ?_⟩
        · rw [FieldsDistinct, List.flatMap_map]
          exact hd
        · rcases List.mem_map.mp hm with ⟨f, hf, rfl⟩
          exact ⟨hw f hf, hadmits _ (h.types f.type (List.mem_map_of_mem hf)).2⟩
      · rw [hother i he]
        have hle : (r.appendStruct s).structs.length ≤ i := by
          rw [Registry.appendStruct, List.length_append, List.length_singleton]
          exact Nat.lt_of_le_of_ne hi (Ne.symm he)
        rw [Registry.setStruct_length] at hi'
        rcases h.closed i hle hi' with ⟨fs, hf, hdist, hfw⟩
        exact ⟨fs, hf, hdist, fun field hm => ⟨(hfw field hm).1, hadmits _ (hfw field hm).2⟩⟩
    fit := by
      intro handle hn hh
      rw [hnames handle]
      rcases new_of_appendStruct s handle hn with rfl | hn₁
      · rw [Registry.namesOf, hopen]
        exact hfit
      · exact h.fit handle hn₁ ((hholds handle).mp hh)
    types := by
      intro t ht
      rw [List.mem_singleton] at ht
      rw [ht]
      refine ⟨trivial, fun handle he => ?_⟩
      rw [Ty.named.injEq] at he
      rw [← he]
      exact (hholds _).mpr hlt
    reached := by
      intro handle hn hh
      refine ⟨_, List.mem_singleton_self _, ?_⟩
      rcases new_of_appendStruct s handle hn with rfl | hn₁
      · exact .root
      · rcases h.reached handle hn₁ ((hholds handle).mp hh) with ⟨t, ht, hr⟩
        rcases List.mem_map.mp ht with ⟨field, hm, rfl⟩
        have hmem : field.stamp owner ∈ fields.map (·.stamp owner) := List.mem_map_of_mem hm
        have hstep : r₂.Reaches (.named (.struct r.structs.length)) field.type :=
          .field _ _ (field.stamp owner) .root (by rw [hself]) hmem
        -- The record had no fields while they were read, so no path went through it.
        have hways := r₁.sameWays_setStruct r.structs.length closing (by rw [hopen, hs])
        exact .trans r₂ hstep (.mono r₁ r₂ hways _ _ hr) }

/-! ### Types without parts -/

theorem primitive?_writable (name : String) (t : Ty) (h : primitive? name = some t) :
    t.Writable ∧ ∀ handle, t ≠ .named handle := by
  unfold primitive? at h
  split at h <;> first
    | contradiction
    | rw [Option.some.injEq] at h
      rw [← h]
      refine ⟨?_, fun handle => nofun⟩
      first
        | exact Or.inl rfl
        | exact Or.inr (Or.inl rfl)
        | simp only [Ty.Writable, ne_eq, reduceCtorEq, not_false_eq_true]

theorem number?_lt (members : Members) (key : String) (n : Nat)
    (h : number? members key = .ok (some n)) : n < numberLimit := by
  unfold number? at h
  split at h
  · exact nomatch h
  · split at h
    · next m _ =>
        by_cases hm : m < numberLimit
        · rw [if_pos hm, Except.ok.injEq, Option.some.injEq] at h
          rw [← h]
          exact hm
        · rw [if_neg hm] at h
          exact nomatch h
    · exact nomatch h

theorem logical?_writable (primitive logical : String) {kind : ScalarKind}
    (h : logical? primitive logical = some kind) : kind ≠ .binaryBase64 := by
  unfold logical? at h
  split at h <;> first
    | contradiction
    | rw [Option.some.injEq] at h
      rw [← h]
      simp only [ne_eq, reduceCtorEq, not_false_eq_true]

theorem LeafRead.writable (doc : Json) (t : Ty) (h : LeafRead doc t) :
    t.Writable ∧ ∀ handle, t ≠ .named handle := by
  cases h with
  | primitive name _ hp => exact primitive?_writable name t hp
  | decimal members precision scale type _ _ hp hs ht =>
      refine ⟨Or.inr (Or.inr ⟨precision, scale.getD 0, number?_lt members _ _ hp, ?_, ht⟩),
        fun handle => Ty.noConfusion⟩
      cases scale with
      | none => exact Nat.two_pow_pos 32
      | some scale => exact number?_lt members _ _ hs
  | logical kind logical _ _ ht =>
      exact ⟨logical?_writable kind logical ht, fun handle => Ty.noConfusion⟩

theorem resolve_holds {r : Registry} (name : String) {space : Option String} (handle : Handle)
    (h : resolve r name space = .ok handle) : r.Holds handle := by
  rcases (resolve_eq_ok_iff r name space handle).mp h with hf | ⟨_, hf⟩
  · exact (r.find?_sound _ handle hf).1
  · exact (r.find?_sound name handle hf).1

/-! ### Definitions -/

/-- The names of a definition fit. -/
theorem NamesRead.fit (members : Members) (enclosing : Option String) (names : Names)
    (h : NamesRead members enclosing names) : names.Fit := by
  rcases h with ⟨list, _, haliases, hnew⟩
  unfold aliases at haliases
  rcases hs : strings members "aliases" with e | written
  · rw [hs] at haliases
    exact nomatch haliases
  · rw [hs, Except.map, Except.ok.injEq] at haliases
    refine names.fit_of_qualified written ?_
    rw [(Names.eq_of_new_eq_ok _ list names hnew).2, ← haliases]

/-! ### Fields -/

/-- A list among the fields gets a literal as its default. -/
theorem FormRead.default_of_repeated {default : Option Json} {schema : Json} {form : FieldForm}
    (h : FormRead default schema form) (hc : form.cardinality = .repeated) :
    ∃ value, form.default = .literal value := by
  -- On the layers. Only the schemas of lists make a list, and they fill in a default.
  induction h with
  | single _ _ _ _ ih => exact ih hc
  | plain => exact nomatch hc
  | nullable => exact nomatch hc
  | list =>
      cases default with
      | none => exact ⟨_, rfl⟩
      | some value => exact ⟨value, rfl⟩
  | nullableList =>
      cases default with
      | none => exact ⟨_, rfl⟩
      | some value => cases value <;> exact ⟨_, rfl⟩

/-- The field that is read can be written in full if its type can. -/
theorem FieldRead.writable {item : Json} {form : FieldForm} {field : Field}
    (h : FieldRead item form field) (ht : field.type.Writable) : field.Writable := by
  cases h with
  | mk members schema _ _ hform _ _ _ hcard hdefault _ =>
      refine ⟨ht, fun hc => ?_⟩
      rcases hform.default_of_repeated (hcard ▸ hc) with ⟨value, hvalue⟩
      have hsuits := field.suits
      rw [hdefault, hvalue, hc] at hsuits
      rw [hdefault, hvalue]
      cases value with
      | null => exact absurd hsuits (by decide)
      | bool _ | int _ | float _ | string _ | array _ | object _ => exact ⟨_, rfl⟩

theorem FieldsRead.writable {items : List Json} {forms : List FieldForm} {fields : List Field}
    (h : FieldsRead items forms fields)
    (ht : ∀ t ∈ fields.map Field.type, t.Writable) : ∀ field ∈ fields, field.Writable := by
  induction h with
  | nil => exact fun field hm => absurd hm List.not_mem_nil
  | cons item form field items forms fields h _ ih =>
      intro field' hm
      rcases List.mem_cons.mp hm with rfl | hm
      · exact h.writable (ht _ List.mem_cons_self)
      · exact ih (fun t ht' => ht t (List.mem_cons_of_mem _ ht')) field' hm

/-! ### Documents -/

/-- A registry grows along a reading. -/
theorem Reading.grows (space : Option String) (r r' : Registry) (docs : List Json) (ts : List Ty)
    (h : Reading space r docs ts r') : Grows r r' ts := by
  induction h with
  | nil space r => exact .refl r [] fun t ht => absurd ht List.not_mem_nil
  | leaf t h rest ih =>
      rcases h.writable with ⟨hw, hn⟩
      exact .append [t] (.of_not_named _ t hw hn) ih
  | reference name handle hn hp hr rest ih =>
      refine .append [.named handle] (.single _ trivial fun handle' he => ?_) ih
      rw [Ty.named.injEq] at he
      rw [← he]
      exact resolve_holds name handle hr
  | wrapped r₁ members nested t hk h rest ihn ihr =>
      exact .append [t] ihn ihr
  | enumeration members e h hu rest ih =>
      exact .append [_] (grows_appendEnum e hu (h.names.fit)) ih
  -- The fields are written into the record after its body has grown, so that both steps are joined
  -- into one.
  | struct r₁ r₂ members s items forms fields h hu hf body hs rest ihb ihr =>
      rcases (r₁.setFields_eq_ok_iff r₂ _ fields).mp hs with ⟨_, _, hd, rfl⟩
      refine .append [_] (grows_record r₁ s fields hu (h.names.fit) h.unassigned ihb hd ?_ _) ihr
      exact hf.writable fun t ht => (ihb.types t ht).1

theorem not_holds_new (token : Nat) (handle : Handle) : ¬ (Registry.new token).Holds handle := by
  cases handle with
  | struct i => exact Nat.not_lt_zero i
  | enumeration i => exact Nat.not_lt_zero i

/-- The graph of a document is written in full, apart from what references stand for, and the
    registry holds nothing else. -/
theorem plain_of_import (token : Nat) (schema : Json) (r : Registry) (t : Ty)
    (h : fromSchema token schema = .ok (r, t)) :
    Plain r t ∧ r.Tidy ∧ ∀ handle, r.Holds handle → r.Reaches t (.named handle) := by
  have hg := ((fromSchema_eq_ok_iff token schema r t).mp h).grows
  have hstart := hg.types t (List.mem_singleton_self t)
  have hclosed := fun i hi => hg.closed i (Nat.zero_le _) hi
  -- The registry was empty, so all of it has been added, and every path stays within it.
  have hadmits : ∀ u, r.Reaches t u → u.Writable ∧ r.Admits u := by
    intro u hu
    induction hu with
    | root => exact hstart
    | inner u _ ih => exact ih.1.elim
    | field i fields field _ hf hm _ =>
        rcases hclosed i (r.lt_of_struct_fields i fields hf) with ⟨fields', hf', _, hw⟩
        rw [hf, Option.some.injEq] at hf'
        rw [hf'] at hm
        exact ⟨(hw field hm).1.1, (hw field hm).2⟩
  have hheld : ∀ handle, r.Reaches t (.named handle) → r.Holds handle :=
    fun handle hr => (hadmits _ hr).2 handle rfl
  refine ⟨⟨⟨hheld, fun i hr => ?_⟩, hstart.1, fun i fields _ hf field hm => ?_,
    fun handle hr => hg.fit handle (not_holds_new token handle) (hheld handle hr)⟩,
    ⟨hg.distinct fun handle _ _ hh => absurd hh (not_holds_new token handle),
      fun i fields hf => ?_⟩,
    fun handle hh => ?_⟩
  · rcases hclosed i (hheld _ hr) with ⟨fields, hf, _⟩
    exact ⟨fields, hf⟩
  · rcases hclosed i (r.lt_of_struct_fields i fields hf) with ⟨fields', hf', _, hw⟩
    rw [hf, Option.some.injEq] at hf'
    rw [hf'] at hm
    exact (hw field hm).1
  · rcases hclosed i (r.lt_of_struct_fields i fields hf) with ⟨fields', hf', hd, _⟩
    rw [hf, Option.some.injEq] at hf'
    rw [hf']
    exact hd
  · rcases hg.reached handle (not_holds_new token handle) hh with ⟨u, hu, hr⟩
    rw [List.mem_singleton] at hu
    rwa [hu] at hr

end Avro

end Schemata
