import Schemata.Proofs.Avro.Grammar
import Schemata.Proofs.Avro.Growth
import Schemata.Proofs.Registry.Beside

/-!
# Imports and the Grammar

The documents that are imported are exactly the type expressions.

An import keeps a registry where the grammar keeps a list of names, and it can
tell more from it. But all that decides whether a part of a document goes
through is which names are carried by some type, so it is enough to know that
these are the names on the list (`Backs`). From there the two go in step: one
induction over a reading writes down the grammar's steps, and one induction
over these finds the types and the registry of a reading.

The grammar without exceptions is not what imports go by. An object that calls
itself a map is refused even where there is a type of the name, and an alias
that is written twice is taken as one.

## Main definitions

* `Avro.Backs`: The names that types carry are those of a list.
* `Avro.Worded`: A document that comes down to a word.

## Theorems

* `Avro.told_iff`: A word is known if it stands for a type.
* `Avro.fieldLines_of_fieldsRead`, `Avro.fieldsRead_of_fieldLines`: Fields.
* `Avro.typed_of_reading`, `Avro.reading_of_typed`: Readings and type
  expressions.
* `importSchema_isOk_iff_typed`, `fromSchema_isOk_iff_typed`: The documents
  that are imported.
* `not_plain_grammar`: Imports do not go by the grammar without exceptions.
-/

namespace Schemata

namespace Registry

/-! ### Names that are carried -/

theorem not_carried_new (token : Nat) (name : String) : ¬ (new token).Carried name :=
  fun ⟨h, hh, _⟩ => Avro.not_holds_new token h hh

/-- One more type carries its own names besides those that were carried. -/
theorem carried_of_one_more (r r' : Registry) (h : Handle) (name : String)
    (hh : ∀ h', r'.Holds h' ↔ r.Holds h' ∨ h' = h)
    (hn : ∀ h', r.Holds h' → r'.namesOf h' = r.namesOf h') :
    r'.Carried name ↔ (r'.namesOf h).Carries name ∨ r.Carried name := by
  constructor
  · rintro ⟨h', hh', hc⟩
    rcases (hh h').mp hh' with hold | rfl
    · rw [hn h' hold] at hc
      exact Or.inr ⟨h', hold, hc⟩
    · exact Or.inl hc
  · rintro (hc | ⟨h', hold, hc⟩)
    · exact ⟨h, (hh h).mpr (Or.inr rfl), hc⟩
    · refine ⟨h', (hh h').mpr (Or.inl hold), ?_⟩
      rw [hn h' hold]
      exact hc

theorem carried_appendStruct_iff (r : Registry) (s : StructType) (name : String) :
    (r.appendStruct s).Carried name ↔ s.names.Carries name ∨ r.Carried name := by
  rw [carried_of_one_more r _ (.struct r.structs.length) name (r.holds_appendStruct_iff s)
    (r.namesOf_appendStruct s), namesOf, struct_appendStruct_length]

theorem carried_appendEnum_iff (r : Registry) (e : EnumType) (name : String) :
    (r.appendEnum e).Carried name ↔ e.names.Carries name ∨ r.Carried name := by
  rw [carried_of_one_more r _ (.enumeration r.enums.length) name (r.holds_appendEnum_iff e)
    (r.namesOf_appendEnum e), namesOf, enumeration_appendEnum_length]

theorem carried_setStruct_iff (r : Registry) (i : Nat) (s : StructType)
    (hn : s.names = (r.struct i).names) (name : String) :
    (r.setStruct i s).Carried name ↔ r.Carried name := by
  unfold Carried
  refine exists_congr fun h => and_congr (r.holds_setStruct i s h) ?_
  rw [r.namesOf_setStruct i s h hn]

end Registry

namespace Avro

/-! ### Words -/

/-- The names that types carry are those of the list. -/
def Backs (r : Registry) (known : List String) : Prop :=
  ∀ name, r.Carried name ↔ name ∈ known

/-- The document comes down to a word, perhaps with a logical type. -/
inductive Worded : Json → String → Prop
  | text (word : String) : Worded (.string word) word
  | object (members : Members) (word : String)
      (hk : Json.find? "type" members = some (.string word)) (hr : word ∉ definitionKinds) :
      Worded (.object members) word

theorem NameRead.worded (doc : Json) (word : String) (h : NameRead doc word) :
    Worded doc word := by
  cases h with
  | text _ => exact .text word
  | object members _ hk hd _ => exact .object members word hk hd

theorem LeafRead.worded (doc : Json) (t : Ty) (h : LeafRead doc t) : ∃ word, Worded doc word := by
  cases h with
  | primitive name hn _ => exact ⟨name, hn.worded⟩
  | decimal members _ _ _ hk => exact ⟨"bytes", .object members _ hk (by decide)⟩
  | logical kind logical hk _ ht =>
      exact ⟨kind, .object _ _ hk (not_definition_of_logical kind logical ht)⟩

theorem exists_resolve_iff (r : Registry) (word : String) (space : Option String) :
    (∃ handle, resolve r word space = .ok handle) ↔
      r.Carried (qualify word space) ∨ r.Carried word := by
  rw [r.carried_iff, r.carried_iff]
  simp only [resolve_eq_ok_iff, exists_or, exists_and_left, ← Option.ne_none_iff_exists']
  by_cases hq : r.find? (qualify word space) = none
  · simp only [hq, ne_eq, not_true_eq_false, true_and, false_or]
  · simp only [hq, ne_eq, not_false_eq_true, true_or]

/-- A word is known if it is a primitive type or stands for a type. -/
theorem told_iff (r : Registry) (known : List String) (hk : Backs r known)
    (space : Option String) (word : String) :
    Told space known word ↔ ∃ t, primitive? word = some t ∨
      ¬ IsPrimitive word ∧ ∃ handle, resolve r word space = .ok handle ∧ t = .named handle := by
  -- Null is a primitive name that stands for no type.
  have hprimitive : (word ∈ primitiveNames ∧ word ≠ "null") ↔ ∃ t, primitive? word = some t := by
    rw [← isPrimitive_iff, ← Option.isSome_iff_exists, IsPrimitive]
    constructor
    · rintro ⟨hp | hn, hne⟩
      · exact hp
      · exact absurd hn hne
    · intro hp
      refine ⟨Or.inl hp, ?_⟩
      rintro rfl
      exact absurd hp (by decide)
  rw [Told, hprimitive, ← hk, ← hk, ← exists_resolve_iff, ← isPrimitive_iff]
  constructor
  · rintro (⟨t, ht⟩ | ⟨hp, handle, hr⟩)
    · exact ⟨t, Or.inl ht⟩
    · exact ⟨_, Or.inr ⟨hp, handle, hr, rfl⟩⟩
  · rintro ⟨t, ht | ⟨hp, handle, hr, _⟩⟩
    · exact Or.inl ⟨t, ht⟩
    · exact Or.inr ⟨hp, handle, hr⟩

section

variable (r r' : Registry) (known : List String) (hbacks : Backs r known) (space : Option String)
include hbacks

theorem exists_importName_iff (word : String) :
    (∃ t, importName space word r = .ok t r') ↔ r = r' ∧ Told space known word := by
  simp only [importName_eq_ok_iff, told_iff r known hbacks, exists_and_left]

/-- An object with a word for its type is imported if the word is known, and has the digits
    of a decimal type if it is to be one. -/
theorem exists_importLogical_iff (word : String) (members : Members) :
    (∃ t, importLogical space word members r = .ok t r') ↔ r = r' ∧ Told space known word ∧
      (word = "bytes" → text? members "logicalType" = some "decimal" → Digits members) := by
  have hprimitive : ∀ kind, kind ∈ primitiveNames ∧ kind ≠ "null" → Told space known kind :=
    fun _ h => Or.inl h
  by_cases hl : HasLogical members word
  · rcases hl with ⟨logical, hl, ⟨rfl, rfl⟩ | hsome⟩
    · rw [importLogical_decimal space members hl]
      simp only [importDecimal_eq_ok_iff, exists_and_left, digits_iff, hl, forall_const,
        hprimitive "bytes" (by decide), true_and]
      refine and_congr_right fun _ => ?_
      constructor
      · rintro ⟨_, precision, hp, scale, hs, type, ht, _⟩
        exact ⟨precision, hp, scale, hs, type, ht⟩
      · rintro ⟨precision, hp, scale, hs, type, ht⟩
        exact ⟨_, precision, hp, scale, hs, type, ht, rfl⟩
    · rcases Option.isSome_iff_exists.mp hsome with ⟨scalar, ht⟩
      rw [importLogical_logical space word logical hl ht]
      simp only [run_pure_eq_ok_iff, exists_and_right, exists_eq', true_and]
      refine ⟨fun h => ⟨h, ?_⟩, fun h => h.1⟩
      -- The other logical types go with two words, and neither is that of decimals.
      rcases whole_of_logical? word logical scalar ht with rfl | rfl
      · exact ⟨hprimitive _ (by decide), fun h => absurd h (by decide)⟩
      · exact ⟨hprimitive _ (by decide), fun h => absurd h (by decide)⟩
  · rw [importLogical_of_not_hasLogical space word members hl,
      exists_importName_iff r r' known hbacks space]
    refine and_congr_right fun _ => ⟨fun h => ⟨h, fun hw ht => ?_⟩, fun h => h.1⟩
    exact absurd ⟨"decimal", ht, Or.inl ⟨hw, rfl⟩⟩ hl

/-- A word is read if it is known. -/
theorem typed_of_worded {doc : Json} (word : String) (hw : Worded doc word) (t : Ty)
    (h : Reading space r [doc] [t] r') {docs : List Json} (known' : List String)
    (rest : Typed .actual space known docs known') :
    Typed .actual space known (doc :: docs) known' := by
  rcases exists_importTypeWith_of_reading space r r' doc t h with ⟨imp, himp⟩
  cases hw with
  | text _ =>
      have htold := (exists_importName_iff r r' known hbacks space word).mp ⟨t, himp⟩
      exact .word space known known' word docs htold.2 rest
  | object members _ hk hr =>
      rw [importTypeWith, importObject_of_not_definition imp space word hk hr] at himp
      have htold := (exists_importLogical_iff r r' known hbacks space word members).mp ⟨t, himp⟩
      exact .object space word hk hr htold.2.1 htold.2.2 rest

end

/-! ### Fields -/

theorem fieldsDistinct_cons_iff (field : Field) (fields : List Field) :
    FieldsDistinct (field :: fields) ↔ (∀ other ∈ fields, ∀ name, field.names.Carries name →
      ¬ other.names.Carries name) ∧ FieldsDistinct fields := by
  unfold FieldsDistinct
  rw [List.flatMap_cons, List.nodup_append']
  simp only [field.names.all_nodup, true_and]
  refine and_comm.trans (and_congr_left fun _ => ?_)
  constructor
  · intro h other ho name hn hn'
    exact h hn (List.mem_flatMap.mpr ⟨other, ho, hn'⟩)
  · intro h name hn hm
    rcases List.mem_flatMap.mp hm with ⟨other, ho, hn'⟩
    exact h other ho name hn hn'

/-- The names that the field carries are those of the list. -/
def Bears (field : Field) (names : List String) : Prop :=
  ∀ name, field.names.Carries name ↔ name ∈ names

theorem fieldLine_of_fieldRead (item : Json) (form : FieldForm) (field : Field)
    (h : FieldRead item form field) :
    ∃ names, FieldLine .actual item names form.type ∧ Bears field names := by
  cases h with
  | @mk members schema list _ _ hname htype hform haliases hnames _ hcard hdefault _ =>
      refine ⟨field.name :: list, .mk members field.name list schema form.type hname
        (strings_eq_ok_iff.mp haliases) ((exists_names_iff _ _).mp ⟨_, hnames⟩) htype ?_,
        carries_of_new hnames⟩
      refine fieldSchema_iff.mpr ⟨form, hform, rfl, ?_⟩
      rw [← hcard, ← hdefault]
      exact field.suits

/-- A field is read with any type. -/
theorem fieldRead_of_fieldLine {item : Json} {names : List String} {type : Json}
    (h : FieldLine .actual item names type) (t : Ty) : ∃ form field, FieldRead item form field ∧
      form.type = type ∧ field.type = t ∧ Bears field names := by
  cases h with
  | mk members name list schema _ hname haliases ha htype h =>
      rcases fieldSchema_iff.mp h with ⟨form, hform, htype', hsuits⟩
      rcases (exists_names_iff name list).mpr ha with ⟨names, hnames⟩
      have hn := (Names.eq_of_new_eq_ok name list names hnames).1
      refine ⟨form, ⟨names, text? members "doc", form.cardinality, t, form.default.normal, none,
        hsuits⟩, .mk members schema ?_ htype hform (strings_eq_ok_iff.mpr
        haliases) ?_ rfl rfl rfl rfl, htype', rfl, carries_of_new hnames⟩
      · rw [hname, Field.name, hn]
      · rw [Field.name, hn]
        exact hnames

theorem fieldLines_of_fieldsRead (items : List Json) (forms : List FieldForm)
    (fields : List Field) (h : FieldsRead items forms fields) (hd : FieldsDistinct fields) :
    ∃ names, FieldLines .actual items names (forms.map FieldForm.type) ∧
      ∀ list ∈ names, ∃ field ∈ fields, Bears field list := by
  induction h with
  | nil => exact ⟨[], .nil, fun list hm => absurd hm List.not_mem_nil⟩
  | cons item form field items forms fields h _ ih =>
      rcases (fieldsDistinct_cons_iff field fields).mp hd with ⟨hfirst, hrest⟩
      rcases ih hrest with ⟨others, hlines, hbears⟩
      rcases fieldLine_of_fieldRead item form field h with ⟨names, hline, hbear⟩
      refine ⟨names :: others, .cons hline ?_ hlines, ?_⟩
      · -- No name of a line behind is one of this line, since the fields have no name in common.
        intro list hm name hn hn'
        rcases hbears list hm with ⟨other, ho, hb⟩
        exact hfirst other ho name ((hbear name).mpr hn) ((hb name).mpr hn')
      · intro list hm
        rcases List.mem_cons.mp hm with rfl | hm
        · exact ⟨field, List.mem_cons_self, hbear⟩
        · rcases hbears list hm with ⟨other, ho, hb⟩
          exact ⟨other, List.mem_cons_of_mem _ ho, hb⟩

/-- Fields are read with any types, as many as there are fields. -/
theorem fieldsRead_of_fieldLines (items : List Json) {names : List (List String)}
    (types : List Json) (h : FieldLines .actual items names types) (ts : List Ty)
    (hlen : types.length = ts.length) : ∃ forms fields, FieldsRead items forms fields ∧
      forms.map FieldForm.type = types ∧ fields.map Field.type = ts ∧ FieldsDistinct fields ∧
      ∀ field ∈ fields, ∃ list ∈ names, Bears field list := by
  induction h generalizing ts with
  | nil =>
      rw [List.length_nil, eq_comm, List.length_eq_zero_iff] at hlen
      exact ⟨[], [], .nil, rfl, by rw [hlen, List.map_nil], List.nodup_nil,
        fun field hm => absurd hm List.not_mem_nil⟩
  | @cons _ names _ _ _ _ h hd _ ih =>
      cases ts with
      | nil => exact absurd hlen (Nat.succ_ne_zero _)
      | cons t ts =>
          rcases ih ts (Nat.succ.inj hlen) with ⟨forms, fields, hf, rfl, rfl, hdist, hbears⟩
          rcases fieldRead_of_fieldLine h t with ⟨form, field, hfield, rfl, rfl, hbear⟩
          refine ⟨form :: forms, field :: fields, .cons _ _ _ _ _ _ hfield hf, rfl, rfl,
            (fieldsDistinct_cons_iff field fields).mpr ⟨?_, hdist⟩, ?_⟩
          · -- The fields have no name in common, since the lines have none.
            intro other ho name hn hn'
            rcases hbears other ho with ⟨list, hm, hb⟩
            exact hd list hm ((hbear name).mp hn) ((hb name).mp hn')
          · intro other ho
            rcases List.mem_cons.mp ho with rfl | ho
            · exact ⟨names, List.mem_cons_self, hbear⟩
            · rcases hbears other ho with ⟨list, hm, hb⟩
              exact ⟨list, List.mem_cons_of_mem _ hm, hb⟩

/-! ### Documents -/

theorem Reading.length_eq (space : Option String) (r r' : Registry) (docs : List Json)
    (ts : List Ty) (h : Reading space r docs ts r') : docs.length = ts.length := by
  induction h with
  | nil => rfl
  | leaf _ _ _ ih => rw [List.length_cons, List.length_cons, ih]
  | reference _ _ _ _ _ _ ih => rw [List.length_cons, List.length_cons, ih]
  | wrapped _ _ _ _ _ _ _ _ ih => rw [List.length_cons, List.length_cons, ih]
  | enumeration _ _ _ _ _ ih => rw [List.length_cons, List.length_cons, ih]
  | struct _ _ _ _ _ _ _ _ _ _ _ _ _ _ ih =>
      rw [List.length_cons, List.length_cons, ih]

/-- The names of a definition are read as those that it begins with. -/
theorem begins_of_namesRead {r : Registry} (known : List String) (hbacks : Backs r known)
    {space : Option String} (members : Members) (names : Names)
    (h : NamesRead members space names) (hu : r.Unused names) :
    ∃ list, Begins .actual space known members names.name list ∧
      ∀ name, names.Carries name ↔ name ∈ names.name :: list := by
  rcases h with ⟨list, hname, haliases, hnew⟩
  exact ⟨list, (begins_iff r known hbacks space members names.name list).mpr
    ⟨names, rfl, hname, haliases, hnew, hu⟩, carries_of_new hnew⟩

theorem backs_of_begun {r : Registry} (r' : Registry) (known : List String) (hbacks : Backs r known)
    (names : Names) (list : List String) (hc : ∀ name, names.Carries name ↔ name ∈ list)
    (h : ∀ name, r'.Carried name ↔ names.Carries name ∨ r.Carried name) :
    Backs r' (list ++ known) := by
  intro name
  rw [h, hc, hbacks, List.mem_append]

/-- An enum is read if its definition begins well and its symbols are in order. -/
theorem exists_enumRead (r : Registry) {known : List String} (hbacks : Backs r known)
    (space : Option String) {members : Members} (name : String) (list : List String)
    (hk : Json.find? "type" members = some (.string "enum"))
    (h : Begins .actual space known members name list) (hs : Symbols members) :
    ∃ e, EnumRead members space e ∧ r.Unused e.names ∧
      Backs (r.appendEnum e) (name :: list ++ known) := by
  rcases (begins_iff r known hbacks space members name list).mp h with
    ⟨names, rfl, hname, haliases, hnew, hu⟩
  rcases hs with ⟨symbols, hsymbols, hne, hnodup, hdefault⟩
  refine ⟨⟨names, text? members "doc", symbols, text? members "default", hne, hnodup, hdefault⟩,
    ⟨hk, ⟨list, hname, haliases, hnew⟩, rfl, strings_eq_ok_iff.mpr hsymbols, rfl⟩, hu, ?_⟩
  exact backs_of_begun _ known hbacks names _ (carries_of_new hnew) (r.carried_appendEnum_iff _)

/-- A record is read, up to its fields, if its definition begins well. -/
theorem exists_recordRead (r : Registry) {known : List String} (hbacks : Backs r known)
    (space : Option String) {members : Members} (name : String) (list : List String)
    (items : List Json) (hk : Json.find? "type" members = some (.string "record") ∨
      Json.find? "type" members = some (.string "error"))
    (h : Begins .actual space known members name list)
    (hi : Json.find? "fields" members = some (.array items)) :
    ∃ s, RecordRead members space s items ∧ s.names.name = name ∧ r.Unused s.names ∧
      Backs (r.appendStruct s) (name :: list ++ known) := by
  rcases (begins_iff r known hbacks space members name list).mp h with
    ⟨names, rfl, hname, haliases, hnew, hu⟩
  refine ⟨⟨names, text? members "doc", none⟩,
    ⟨hk, ⟨list, hname, haliases, hnew⟩, rfl, rfl, hi⟩, rfl, hu, ?_⟩
  exact backs_of_begun _ known hbacks names _ (carries_of_new hnew) (r.carried_appendStruct_iff _)

theorem backs_setFields (r r' : Registry) (i : Nat) (fields : List Field) {known : List String}
    (hbacks : Backs r known) (h : r.setFields i fields = .ok r') : Backs r' known := by
  rcases (r.setFields_eq_ok_iff r' i fields).mp h with ⟨_, _, _, rfl⟩
  intro name
  refine (r.carried_setStruct_iff i _ ?_ name).trans (hbacks name)
  rfl

/-- What is read is a type expression. -/
theorem typed_of_reading {space : Option String} {r r' : Registry} {docs : List Json}
    {ts : List Ty} (h : Reading space r docs ts r') (known : List String)
    (hbacks : Backs r known) :
    ∃ known', Typed .actual space known docs known' ∧ Backs r' known' := by
  -- At every step the names that are known are those that the registry carries.
  induction h generalizing known with
  | nil space r => exact ⟨known, .nil space known, hbacks⟩
  | leaf t h _ ih =>
      rcases h.worded with ⟨word, hw⟩
      rcases ih known hbacks with ⟨known', htyped, hbacks'⟩
      exact ⟨known', typed_of_worded _ _ known hbacks _ word hw t
        (.leaf _ h (.nil _ _)) known' htyped, hbacks'⟩
  | reference name handle hn hp hr _ ih =>
      rcases ih known hbacks with ⟨known', htyped, hbacks'⟩
      exact ⟨known', typed_of_worded _ _ known hbacks _ name hn.worded _
        (.reference _ _ hn hp hr (.nil _ _)) known' htyped, hbacks'⟩
  | wrapped r₁ members nested t hk _ _ ihn ih =>
      rcases ihn known hbacks with ⟨middle, hnested, hmiddle⟩
      rcases ih middle hmiddle with ⟨known', htyped, hbacks'⟩
      exact ⟨known', .wrapped _ known middle known' members nested _ hk hnested htyped, hbacks'⟩
  | @enumeration _ r _ _ _ members e h hu _ ih =>
      rcases begins_of_namesRead known hbacks members e.names h.names hu with
        ⟨list, hbegins, hcarries⟩
      rcases ih _ (backs_of_begun _ known hbacks e.names _ hcarries
        (r.carried_appendEnum_iff e)) with ⟨known', htyped, hbacks'⟩
      refine ⟨known', .enumeration _ e.names.name list h.kind
        hbegins ⟨e.symbols, strings_eq_ok_iff.mp h.symbols, e.symbols_ne_nil,
          e.symbols_nodup, ?_⟩ htyped, hbacks'⟩
      rw [← h.default]
      exact e.default_mem
  | @struct _ r _ _ _ r₁ r₂ members s items forms fields h hu hf _ hs _ ihb ih =>
      rcases begins_of_namesRead known hbacks members s.names h.names hu with
        ⟨list, hbegins, hcarries⟩
      rcases ihb _ (backs_of_begun _ known hbacks s.names _ hcarries
        (r.carried_appendStruct_iff s)) with ⟨middle, hbody, hmiddle⟩
      rcases ih middle (backs_setFields r₁ r₂ _ fields hmiddle hs) with ⟨known', htyped, hbacks'⟩
      have hd := ((r₁.setFields_eq_ok_iff r₂ _ fields).mp hs).2.2.1
      rcases fieldLines_of_fieldsRead items forms fields hf hd with ⟨names, hlines, _⟩
      exact ⟨known', .record _ s.names.name list items _
        h.kind hbegins h.items hlines hbody htyped, hbacks'⟩

/-- Fields can be assigned to a record that was registered before they were read. -/
theorem setFields_of_fieldsRead (r r₁ : Registry) (s : StructType) (items : List Json)
    (forms : List FieldForm) (fields : List Field) (hs : s.fields = none)
    (hb : (r.appendStruct s).Below r₁) (hf : FieldsRead items forms fields)
    (hd : FieldsDistinct fields) : ∃ r₂, r₁.setFields r.structs.length fields = .ok r₂ := by
  refine ⟨_, (r₁.setFields_eq_ok_iff _ _ fields).mpr ⟨?_, fun field hm o ho => ?_, hd, rfl⟩⟩
  · rw [hb.struct_of_appendStruct, hs]
  · rw [owner_of_fieldsRead items forms fields hf field hm] at ho
    exact absurd ho (Option.not_mem_none o)

/-- A type expression is read. -/
theorem reading_of_typed {space : Option String} {known known' : List String} {docs : List Json}
    (h : Typed .actual space known docs known') (r : Registry) (hbacks : Backs r known) :
    ∃ ts r', Reading space r docs ts r' ∧ Backs r' known' := by
  induction h generalizing r with
  | nil space known => exact ⟨[], r, .nil space r, hbacks⟩
  | word space known known' word docs hw _ ih =>
      rcases (exists_importName_iff r r known hbacks space word).mpr ⟨rfl, hw⟩ with ⟨t, ht⟩
      rcases ih r hbacks with ⟨ts, r', hrest, hbacks'⟩
      exact ⟨t :: ts, r', reading_of_importName space _ word t r r (.text word) ht docs ts r' hrest,
        hbacks'⟩
  | object space word hk hr hw hd _ ih =>
      rcases (exists_importLogical_iff r r _ hbacks space word _).mpr ⟨rfl, hw, hd⟩ with ⟨t, ht⟩
      rcases ih r hbacks with ⟨ts, r', hrest, hbacks'⟩
      exact ⟨t :: ts, r', reading_of_importLogical space word t r r hk hr ht ts r' hrest, hbacks'⟩
  | wrapped space known middle known' members nested docs hk _ _ ihn ih =>
      rcases ihn r hbacks with ⟨us, r₁, hnested, hmiddle⟩
      rcases (reading_cons_iff space r r₁ _ [] us).mp hnested with ⟨t, _, r₂, rfl, hone, hnil⟩
      cases hnil
      rcases ih r₁ hmiddle with ⟨ts, r', hrest, hbacks'⟩
      exact ⟨t :: ts, r', .wrapped r₁ members nested t hk hone hrest, hbacks'⟩
  | enumeration space name list hk h hs _ ih =>
      rcases exists_enumRead r hbacks space name list hk h hs with ⟨e, he, hu, hbegun⟩
      rcases ih _ hbegun with ⟨ts, r', hrest, hbacks'⟩
      exact ⟨_, r', .enumeration _ e he hu hrest, hbacks'⟩
  | @record space known _ _ _ name list items _ types _ hk h hi hf _ _ ihb ih =>
      rcases exists_recordRead r hbacks space name list items hk h hi with
        ⟨s, hs, rfl, hu, hbegun⟩
      rcases ihb _ hbegun with ⟨us, r₁, hbody, hmiddle⟩
      -- The types of the fields are known by now, so the fields can be put together.
      rcases fieldsRead_of_fieldLines items types hf us hbody.length_eq with
        ⟨forms, fields, hfields, rfl, rfl, hd, _⟩
      rcases setFields_of_fieldsRead r r₁ s items forms fields hs.unassigned hbody.grows.below
        hfields hd with ⟨r₂, hset⟩
      rcases ih r₂ (backs_setFields r₁ r₂ _ fields hmiddle hset) with ⟨ts, r', hrest, hbacks'⟩
      exact ⟨_, r', .struct r₁ r₂ _ s items forms fields hs hu hfields hbody hset hrest, hbacks'⟩

end Avro

/-- A document is imported into a registry if it is a type expression, given the names that
    the registry's types carry. -/
theorem importSchema_isOk_iff_typed (r : Registry) (known : List String)
    (hbacks : Avro.Backs r known) (d : Json) :
    (∃ r' t, r.importSchema d = .ok t r') ↔ ∃ known', Avro.Typed .actual none known [d] known' := by
  simp only [importSchema_eq_ok_iff]
  constructor
  · rintro ⟨r', t, h⟩
    rcases Avro.typed_of_reading h known hbacks with ⟨known', htyped, _⟩
    exact ⟨known', htyped⟩
  · rintro ⟨known', htyped⟩
    rcases Avro.reading_of_typed htyped r hbacks with ⟨ts, r', h, _⟩
    rcases (Avro.reading_cons_iff none r r' d [] ts).mp h with ⟨t, _, r₁, rfl, hone, hnil⟩
    cases hnil
    exact ⟨r', t, hone⟩

theorem Avro.backs_new (token : Nat) : Avro.Backs (.new token) [] := by
  intro name
  simp only [List.not_mem_nil, iff_false]
  exact Registry.not_carried_new token name

/-- The documents that are imported are the type expressions. -/
theorem fromSchema_isOk_iff_typed (token : Nat) (d : Json) :
    (∃ r t, fromSchema token d = .ok (r, t)) ↔
      ∃ known, Avro.Typed .actual none [] [d] known := by
  rw [← importSchema_isOk_iff_typed (.new token) [] (Avro.backs_new token) d]
  simp only [fromSchema_eq_ok_iff, importSchema_eq_ok_iff]

/-! ### The grammar without exceptions -/

namespace Avro

/-- The definition of an enum with the name `map`. -/
def enumMap : Members :=
  [("name", .string "map"), ("symbols", .array [.string "A"]), ("type", .string "enum")]

/-- An object that refers to a type with the name `map`. -/
def refersToMap : Members :=
  [("type", .string "map")]

/-- A field of an enum with the name `map`, and one that refers to it. -/
def mapFields : List Json :=
  [.object [("name", .string "a"), ("type", .object enumMap)],
    .object [("name", .string "b"), ("type", .object refersToMap)]]

/-- A record with these fields. -/
def mapReference : Json :=
  .object [("fields", .array mapFields), ("name", .string "R"), ("type", .string "record")]

/-- An enum with an alias that is written twice. -/
def aliasTwice : Json :=
  .object [("aliases", .array [.string "A", .string "A"]), ("name", .string "E"),
    ("symbols", .array [.string "X"]), ("type", .string "enum")]

theorem Grammar.apart_nil (g : Grammar) (name : String) : g.Apart name [] :=
  ⟨List.not_mem_nil, fun _ => List.nodup_nil⟩

/-- A field with a name, a type and nothing else. -/
theorem fieldLine_plain (g : Grammar) (name : String) (members : Members) (kind : String)
    (hk : text? members "type" = some kind) (hne : kind ≠ "array") :
    FieldLine g (.object [("name", .string name), ("type", .object members)]) [name]
      (.object members) := by
  have ha : arrayItems? (.object members) = none := by
    rw [arrayItems?, hk, if_neg]
    exact fun he => hne (Option.some.inj he)
  exact .mk _ name [] _ _ rfl (Or.inr ⟨rfl, rfl⟩) (g.apart_nil name) rfl
    (.plain _ (fun _ => Json.noConfusion) ha (by simp [Json.find?]))

theorem typed_mapReference : Typed .plain none [] [mapReference] ["map", "R"] := by
  have hfields : FieldLines .plain mapFields [["a"], ["b"]]
      [.object enumMap, .object refersToMap] :=
    .cons (fieldLine_plain _ "a" enumMap "enum" rfl (by decide)) (by simp)
      (.cons (fieldLine_plain _ "b" refersToMap "map" rfl (by decide)) (by simp) .nil)
  have hbegins : Begins .plain none ["R"] enumMap "map" [] :=
    ⟨⟨"map", rfl, rfl⟩, ⟨[], Or.inr ⟨rfl, rfl⟩, rfl⟩, Grammar.plain.apart_nil _, by decide⟩
  have hsymbols : Symbols enumMap :=
    ⟨["A"], Or.inl rfl, by decide, by decide, by simp [text?, Json.find?, enumMap]⟩
  -- The name of the enum is known by the time that the second field refers to it.
  have htold : Told none ["map", "R"] "map" := Or.inr ⟨by decide, Or.inl List.mem_cons_self⟩
  have hbody : Typed .plain none ["R"] [.object enumMap, .object refersToMap] ["map", "R"] :=
    .enumeration none "map" [] rfl hbegins hsymbols (.object none "map" rfl List.not_mem_nil htold
        (fun h => absurd h (by decide)) (.nil _ _))
  exact .record none "R" [] mapFields _ (Or.inl rfl)
    ⟨⟨"R", rfl, rfl⟩, ⟨[], Or.inr ⟨rfl, rfl⟩, rfl⟩, Grammar.plain.apart_nil _, by decide⟩ rfl
    hfields hbody (.nil _ _)

/-- An alias that is written twice is not in the grammar without exceptions. -/
theorem not_typed_aliasTwice (known : List String) : ¬ Typed .plain none [] [aliasTwice] known := by
  intro h
  cases h with
  | object _ word hk _ hw _ _ =>
      -- No type is known that the word could refer to.
      have hword : word = "enum" := by simpa [Json.find?] using hk.symm
      rw [hword] at hw
      rcases hw with ⟨hp, _⟩ | ⟨_, hn⟩
      · exact absurd hp (by decide)
      · exact hn.elim List.not_mem_nil List.not_mem_nil
  | wrapped _ _ _ _ _ _ _ hk => simp [Json.find?] at hk
  | enumeration _ name list _ hb =>
      rcases hb.listed with ⟨written, hl, rfl⟩
      have hread := strings_eq_ok_iff.mpr hl
      have hw : written = ["A", "A"] := (Except.ok.inj hread).symm
      have hn := hb.apart.2 rfl
      rw [hw, List.map_cons, List.map_cons, List.nodup_cons] at hn
      exact hn.1 List.mem_cons_self
  | record _ _ _ _ _ hk => simp [Json.find?] at hk

end Avro

/-- Imports do not go by the grammar without exceptions: a type expression of it may not be
    imported, and a document that is imported may not be one. -/
theorem not_plain_grammar :
    ((∃ known, Avro.Typed .plain none [] [Avro.mapReference] known) ∧
      (fromSchema 0 Avro.mapReference).toOption.isNone = true) ∧
    (¬ (∃ known, Avro.Typed .plain none [] [Avro.aliasTwice] known) ∧
      (fromSchema 0 Avro.aliasTwice).toOption.isSome = true) :=
  ⟨⟨⟨_, Avro.typed_mapReference⟩, by decide +kernel⟩,
    fun ⟨known, h⟩ => Avro.not_typed_aliasTwice known h, by decide +kernel⟩

end Schemata
