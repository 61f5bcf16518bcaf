import Schemata.Proofs.Avro.Accepted
import Schemata.Proofs.Avro.Fits
import Schemata.Proofs.Avro.RoundTrip

/-!
# Orderly Graphs

A condition on a graph under which its export is accepted.

`TypeConforms` is exact, but it asks about names and defaults at the moment
when the walk of the export comes to them. `Orderly` looks at each type and
each field by itself, and it can be decided. A default that is not empty or
null is only allowed there where it fits the type alone (`DefaultFits`).

What is left to the walk is that a type is known by then where it is referred
to. Everything that is written has been met under its name, and an enum with
its symbols, and no type that is met later takes that name away (`Knows`).

An import keeps names and symbols. It keeps defaults too, but not always the
types that they were meant for, and so the export of a document may break a
rule although the document breaks none (`nullItem_refused`).

## Main definitions

* `Avro.NamesOrderly`: Names are well formed and taken for no word.
* `Avro.Orderly`: Names are well formed and legible, and defaults fit.
* `Avro.Knows`: What is written has been met under its name.
* `Avro.ConformsAlong`: Fields of the types that a part of the walk writes conform.

## Theorems

* `Avro.exists_fieldRead?`: A reference in an orderly graph is read.
* `Avro.conforms_of_orderly`: The fields of an orderly graph conform.
* `Avro.typeConforms_of_orderly`: So does its root.
* `toAvro_of_orderly`: The export of an orderly graph is accepted.
* `toAvro_of_fromText`: When the export of an imported text is accepted.
-/

namespace Schemata

namespace Avro

/-! ### Orderly graphs -/

/-- Names that are well formed, that no rule takes for words, and that do not begin with a dot
    unless they have another. -/
structure NamesOrderly (names : Names) : Prop where
  conform : NamesConform names
  word : names.name ∉ primitiveNames ++ kindWords
  spaces : ∀ name ∈ names.all, namespaceOf? name ≠ some ""

instance (names : Names) : Decidable (NamesConform names) :=
  decidable_of_iff (isTypeName names.name = true ∧ (ownSpace names.name).all isNamespace = true ∧
      ∀ name ∈ names.aliases.toList, isTypeName (qualify name (ownSpace names.name)) = true)
    ⟨fun ⟨hname, hspace, haliases⟩ => ⟨hname, hspace, haliases⟩,
      fun ⟨hname, hspace, haliases⟩ => ⟨hname, hspace, haliases⟩⟩

instance (names : Names) : Decidable (NamesOrderly names) :=
  decidable_of_iff (NamesConform names ∧ names.name ∉ primitiveNames ++ kindWords ∧
      ∀ name ∈ names.all, namespaceOf? name ≠ some "")
    ⟨fun ⟨hconform, hword, hspaces⟩ => ⟨hconform, hword, hspaces⟩,
      fun ⟨hconform, hword, hspaces⟩ => ⟨hconform, hword, hspaces⟩⟩

/-- All names and symbols are well formed and legible, and the defaults of fields fit. Within a
    namespace a name is legible if it has a dot. -/
structure Orderly (r : Registry) : Prop where
  structs : ∀ s ∈ r.structs, NamesOrderly s.names ∧ ∀ fields ∈ s.fields, ∀ field ∈ fields,
    isIdentifier field.name = true ∧ DefaultFits r field.type field.cardinality field.default
  enums : ∀ e ∈ r.enums, NamesOrderly e.names ∧ ∀ symbol ∈ e.symbols, isIdentifier symbol = true
  dots : ((∀ s ∈ r.structs, hasDot s.name = true) ∧ ∀ e ∈ r.enums, hasDot e.name = true) ∨
    ∀ s ∈ r.structs, ownSpace s.name = none

instance (r : Registry) : Decidable (Orderly r) :=
  decidable_of_iff ((∀ s ∈ r.structs, NamesOrderly s.names ∧ ∀ fields ∈ s.fields, ∀ field ∈ fields,
        isIdentifier field.name = true ∧ DefaultFits r field.type field.cardinality field.default) ∧
      (∀ e ∈ r.enums, NamesOrderly e.names ∧ ∀ symbol ∈ e.symbols, isIdentifier symbol = true) ∧
      (((∀ s ∈ r.structs, hasDot s.name = true) ∧ ∀ e ∈ r.enums, hasDot e.name = true) ∨
        ∀ s ∈ r.structs, ownSpace s.name = none))
    ⟨fun ⟨hstructs, henums, hdots⟩ => ⟨hstructs, henums, hdots⟩,
      fun ⟨hstructs, henums, hdots⟩ => ⟨hstructs, henums, hdots⟩⟩

/-- What is written has been met under its name, and an enum with its schema. -/
structure Knows (r : Registry) (written : Written) (seen : Seen) : Prop where
  referred : ∀ h ∈ written, (seen.refer? (r.nameOf h)).isSome
  enums : ∀ i, .enumeration i ∈ written →
    seen.complete.find? (r.enumeration i).name = some (enumFlat (r.enumeration i))

theorem refer?_isSome_iff (seen : Seen) (name : String) : (seen.refer? name).isSome ↔
    name ∈ seen.complete.map Prod.fst ∨ name ∈ seen.pending.map Prod.fst := by
  have hmem : ∀ {β : Type} (list : List (String × β)),
      (list.lookup name).isSome ↔ name ∈ list.map Prod.fst := by
    intro β list
    rw [List.lookup_isSome_iff, List.mem_map]
    constructor
    · rintro ⟨pair, hm, he⟩
      exact ⟨pair, hm, (eq_of_beq he).symm⟩
    · rintro ⟨pair, hm, he⟩
      exact ⟨pair, hm, by rw [he]; exact beq_self_eq_true name⟩
  rw [← hmem, ← hmem, Seen.refer?, Environment.find?]
  -- What is complete comes before what is pending.
  rcases seen.complete.lookup name with _ | schema
  · simp only [Option.isSome_map, Option.isSome_none, Bool.false_eq_true, false_or]
  · simp only [Option.isSome_some, true_or]

/-- What is known stays known when a record is begun. -/
theorem refer?_start (seen : Seen) (full : String) (others : List String) (name : String)
    (h : name = full ∨ (seen.refer? name).isSome) :
    ((seen.start full others).refer? name).isSome := by
  rw [refer?_isSome_iff]
  rw [refer?_isSome_iff] at h
  rcases h with rfl | h | h
  · refine Or.inr (List.mem_map.mpr ⟨(name, name), ?_, rfl⟩)
    exact List.mem_append_left _ (List.mem_reverse.mpr (List.mem_map_of_mem List.mem_cons_self))
  · exact Or.inl h
  · rw [Seen.start, List.map_append]
    exact Or.inr (List.mem_append_right _ h)

/-- What is known stays known when a type is met. -/
theorem refer?_finish (seen : Seen) (full : String) (others : List String) (schema : Schema)
    (name : String) (h : name = full ∨ (seen.refer? name).isSome) :
    ((seen.finish full others schema).refer? name).isSome := by
  rw [refer?_isSome_iff]
  rw [refer?_isSome_iff] at h
  -- What is met is complete from now on, and nothing but that is taken from what is pending.
  by_cases hnew : name ∈ full :: others
  · refine Or.inl (List.mem_map.mpr ⟨(name, schema), ?_, rfl⟩)
    exact List.mem_append_left _ (List.mem_reverse.mpr (List.mem_map_of_mem hnew))
  · rcases h with rfl | h | h
    · exact absurd List.mem_cons_self hnew
    · rw [Seen.finish, List.map_append]
      exact Or.inl (List.mem_append_right _ h)
    · rcases List.mem_map.mp h with ⟨pair, hm, rfl⟩
      refine Or.inr (List.mem_map_of_mem (List.mem_filter.mpr ⟨hm, ?_⟩))
      exact decide_eq_true hnew

/-- A type that is met hides no other name than its own. -/
theorem find?_finish (seen : Seen) (full : String) (others : List String) (schema : Schema)
    (name : String) (h : name ∉ full :: others) :
    (seen.finish full others schema).complete.find? name = seen.complete.find? name := by
  have hnone : (((full :: others).map (·, schema)).reverse).lookup name = none := by
    rw [List.lookup_eq_none_iff]
    intro pair hm
    rw [List.mem_reverse, List.mem_map] at hm
    rcases hm with ⟨other, hm, rfl⟩
    rw [bne_iff_ne]
    rintro rfl
    exact h hm
  unfold Environment.find? Seen.finish
  rw [List.lookup_append, hnone, Option.none_or]

/-! ### The walk of an orderly graph -/

/-- What a reference is read as is a name. -/
theorem reference_of_refer? (seen : Seen) (name : String) (schema : Schema)
    (h : seen.refer? name = some schema) : ∃ full, schema = .reference full := by
  unfold Seen.refer? at h
  split at h
  · exact ⟨name, (Option.some.inj h).symm⟩
  · rcases Option.map_eq_some_iff.mp h with ⟨full, _, rfl⟩
    exact ⟨full, rfl⟩

/-- A name that is read as it is written refers to what is known by it. -/
theorem fieldRead?_eq_refer? (seen : Seen) (space : Option String) (field : Field) (name : String)
    (hname : isTypeName name = true) (hword : name ∉ primitiveNames ++ kindWords)
    (hfull : inSpace name space = name) :
    fieldRead? seen space field name = seen.refer? name := by
  have hprimitive : Schema.primitive? name = none := by
    unfold Schema.primitive?
    split <;> first
      | rfl
      | exact absurd (by decide) hword
  rw [fieldRead?_eq_read? seen space field name fun hm => hword (List.mem_append_right _ hm),
    Seen.read?, hprimitive, if_pos hname, hfull, Option.none_or]

namespace Orderly

variable (r : Registry) (ho : Orderly r)

include ho

theorem names (h : Handle) (hh : r.Holds h) : NamesOrderly (r.namesOf h) := by
  cases h with
  | struct i =>
      rw [Registry.namesOf, r.struct_eq_getElem i hh]
      exact (ho.structs _ (List.getElem_mem hh)).1
  | enumeration i =>
      rw [Registry.namesOf, r.enumeration_eq_getElem i hh]
      exact (ho.enums _ (List.getElem_mem hh)).1

theorem symbols (i : Nat) (hi : i < r.enums.length) :
    ∀ symbol ∈ (r.enumeration i).symbols, isIdentifier symbol = true := by
  rw [r.enumeration_eq_getElem i hi]
  exact (ho.enums _ (List.getElem_mem hi)).2

theorem fields (i : Nat) (fields : List Field) (hf : (r.struct i).fields = some fields) :
    ∀ field ∈ fields, isIdentifier field.name = true ∧
      DefaultFits r field.type field.cardinality field.default := by
  have hi := r.lt_of_struct_fields i fields hf
  rw [r.struct_eq_getElem i hi] at hf
  exact (ho.structs _ (List.getElem_mem hi)).2 fields hf

/-- Within a record a name is read as it is written. -/
theorem legible (h : Handle) (hh : r.Holds h) (i : Nat) (hi : i < r.structs.length) :
    hasDot (r.nameOf h) = true ∨ ownSpace (r.struct i).name = none := by
  rcases ho.dots with ⟨hstructs, henums⟩ | hspaces
  · refine Or.inl ?_
    cases h with
    | struct j =>
        rw [Registry.nameOf, Registry.namesOf, r.struct_eq_getElem j hh]
        exact hstructs _ (List.getElem_mem hh)
    | enumeration j =>
        rw [Registry.nameOf, Registry.namesOf, r.enumeration_eq_getElem j hh]
        exact henums _ (List.getElem_mem hh)
  · rw [r.struct_eq_getElem i hi]
    exact Or.inr (hspaces _ (List.getElem_mem hi))

theorem inSpace_nameOf (h : Handle) (hh : r.Holds h) : inSpace (r.nameOf h) none = r.nameOf h :=
  inSpace_eq_self _ none ((ho.names r h hh).spaces _ Names.carries_name) (Or.inr rfl)

/-- The aliases of a type are known as they are written. -/
theorem knownAliases_eq (h : Handle) (hh : r.Holds h) (hfit : (r.namesOf h).Fit) :
    knownAliases (r.namesOf h) = (r.namesOf h).aliases.toList := by
  have hspaces := (ho.names r h hh).spaces
  -- No space is empty, so the check takes the space of the name as the graph does.
  have hown : ownSpace (r.namesOf h).name = namespaceOf? (r.namesOf h).name := by
    rcases hs : namespaceOf? (r.namesOf h).name with _ | space
    · rw [ownSpace, hs]
      rfl
    · have hne := hspaces _ Names.carries_name
      rw [hs] at hne
      rw [ownSpace, hs]
      exact Option.filter_some_pos (decide_eq_true fun he => hne (congrArg some he))
  rw [knownAliases, hown, Names.map_qualify_aliases _ hfit]
  conv_rhs => rw [← List.map_id' (r.namesOf h).aliases.toList]
  refine List.map_congr_left fun name hm => inSpace_eq_self name _
    (hspaces name ((Names.carries_iff _ _).mpr (Or.inr hm))) ?_
  -- In a namespace every alias has a dot itself, and outside there is nothing to put before it.
  by_cases hdot : hasDot (r.namesOf h).name = true
  · exact Or.inl (hfit hdot name hm)
  · rw [Bool.not_eq_true, ← namespaceOf?_eq_none_iff] at hdot
    rw [hdot]
    exact Or.inr rfl

/-- No type is known by the name of another. -/
theorem not_known (ht : r.Tidy) (h h' : Handle) (hh : r.Holds h) (hh' : r.Holds h')
    (hfit : (r.namesOf h').Fit) (hne : h ≠ h') :
    r.nameOf h ∉ inSpace (r.nameOf h') none :: knownAliases (r.namesOf h') := by
  rw [ho.inSpace_nameOf r h' hh', ho.knownAliases_eq r h' hh' hfit]
  intro hm
  exact hne (ht.distinct h h' _ hh hh' Names.carries_name
    ((Names.carries_iff _ _).mpr (List.mem_cons.mp hm)))

end Orderly

/-! ### What is known on the way -/

namespace Knows

variable (r : Registry) (written : Written) (seen : Seen)

theorem nil : Knows r [] .empty where
  referred _ hm := absurd hm List.not_mem_nil
  enums _ hm := absurd hm List.not_mem_nil

/-- A record that is begun can be referred to. -/
theorem start (hk : Knows r written seen) (i : Nat) (others : List String) :
    Knows r (.struct i :: written) (seen.start (r.struct i).name others) where
  referred h hm := by
    refine refer?_start seen _ others _ ?_
    rcases List.mem_cons.mp hm with rfl | hm
    · exact Or.inl rfl
    · exact Or.inr (hk.referred h hm)
  enums j hm := by
    rcases List.mem_cons.mp hm with he | hm
    · exact absurd he Handle.noConfusion
    · exact hk.enums j hm

/-- A type that is met, under names that are not those of enums before it. -/
theorem finish (hk : Knows r written seen) (full : String) (others : List String)
    (schema : Schema)
    (hnew : ∀ i, .enumeration i ∈ written → (r.enumeration i).name ∉ full :: others) :
    Knows r written (seen.finish full others schema) where
  referred h hm := refer?_finish seen full others schema _ (Or.inr (hk.referred h hm))
  enums i hm := by
    rw [find?_finish seen full others schema _ (hnew i hm)]
    exact hk.enums i hm

/-- An enum that is met, under names that are not those of enums before it. -/
theorem enumeration (hk : Knows r written seen) (i : Nat) (others : List String)
    (hself : (r.enumeration i).name ∉ others)
    (hnew : ∀ j, .enumeration j ∈ written →
      (r.enumeration j).name ∉ (r.enumeration i).name :: others) :
    Knows r (.enumeration i :: written)
      (seen.finish (r.enumeration i).name others (enumFlat (r.enumeration i))) where
  referred h hm := by
    refine refer?_finish seen _ others _ _ ?_
    rcases List.mem_cons.mp hm with rfl | hm
    · exact Or.inl rfl
    · exact Or.inr (hk.referred h hm)
  enums j hm := by
    rcases List.mem_cons.mp hm with he | hm
    · rw [Handle.enumeration.injEq] at he
      rw [he]
      -- None of the aliases is the name itself, so its entry is met first.
      have hnone : ((others.map (·, enumFlat (r.enumeration i))).reverse).lookup
          (r.enumeration i).name = none := by
        rw [List.lookup_eq_none_iff]
        intro pair hm
        rw [List.mem_reverse, List.mem_map] at hm
        rcases hm with ⟨other, hm, rfl⟩
        rw [bne_iff_ne]
        rintro rfl
        exact hself hm
      unfold Environment.find? Seen.finish
      rw [List.map_cons, List.reverse_cons, List.append_assoc, List.lookup_append, hnone,
        Option.none_or]
      exact List.lookup_cons_self
    · exact (hk.finish r written seen _ others _ hnew).enums j hm

end Knows

/-! ### The walk of an orderly graph -/

section

variable (r : Registry) (ho : Orderly r) (depth : Nat)

include ho

/-- A reference in a field is read as what stands for its type. -/
theorem exists_fieldRead? {written : Written} (seen : Seen) (hk : Knows r written seen)
    {outer : Option String} (field : Field) (h : Handle) (hcore : field.type.core = .named h)
    (hm : h ∈ written) (hh : r.Holds h)
    (hl : hasDot (r.nameOf h) = true ∨ someSpace outer = none) :
    ∃ schema, fieldRead? seen (someSpace outer) field (r.nameOf h) = some schema ∧
      (schema.kind ≠ .null ∧ schema.kind ≠ .union) ∧
      ∀ flat, flatSchema r field.type.core = some flat → Stands seen.complete flat schema := by
  have hnames := ho.names r h hh
  have hspace : namespaceOf? (r.nameOf h) ≠ some "" := hnames.spaces _ Names.carries_name
  have hfull : inSpace (r.nameOf h) (someSpace outer) = r.nameOf h := by
    refine inSpace_eq_self _ _ hspace (hl.imp id fun hs => ?_)
    rw [hs]
    rfl
  rw [fieldRead?_eq_refer? seen _ field (r.nameOf h) hnames.conform.name hnames.word hfull]
  cases h with
  | enumeration i =>
      -- An enum is complete once it is written, so its name leads to its symbols.
      have hfind : seen.complete.find? (r.nameOf (.enumeration i))
          = some (enumFlat (r.enumeration i)) := hk.enums i hm
      refine ⟨.reference (r.nameOf (.enumeration i)), ?_, ⟨Kind.noConfusion, Kind.noConfusion⟩, ?_⟩
      · rw [Seen.refer?, hfind]
      · intro flat hflat
        rw [hcore, flatSchema, Option.some.injEq] at hflat
        rw [← hflat]
        exact .reference _ hspace hfind
  | struct i =>
      rcases Option.isSome_iff_exists.mp (hk.referred _ hm) with ⟨schema, hschema⟩
      rcases reference_of_refer? seen _ schema hschema with ⟨full, rfl⟩
      refine ⟨_, hschema, ⟨Kind.noConfusion, Kind.noConfusion⟩, ?_⟩
      intro flat hflat
      rw [hcore] at hflat
      simp only [flatSchema, leafSchema, reduceCtorEq] at hflat

/-- An enum conforms where it is written, and is known then. -/
theorem enumConforms_of_orderly (ht : r.Tidy) {written : Written} (seen : Seen)
    (hk : Knows r written seen) (i : Nat) (hi : r.Holds (.enumeration i))
    (hfit : (r.namesOf (.enumeration i)).Fit) (hw : ∀ h ∈ written, r.Holds h)
    (hm : .enumeration i ∉ written) :
    ∃ seen', EnumConforms (r.enumeration i) seen (enumFlat (r.enumeration i)) seen' ∧
      Knows r (.enumeration i :: written) seen' := by
  have hfull : inSpace (r.enumeration i).name none = (r.enumeration i).name :=
    ho.inSpace_nameOf r (.enumeration i) hi
  have hself : (r.enumeration i).name ∉ knownAliases (r.enumeration i).names := by
    intro hmem
    have hname : (r.enumeration i).name ∈ (r.enumeration i).names.aliases.toList :=
      ho.knownAliases_eq r (.enumeration i) hi hfit ▸ hmem
    exact (r.enumeration i).names.name_not_mem hname
  refine ⟨_, ⟨(ho.names r _ hi).conform, ho.symbols r i hi, rfl, rfl⟩, ?_⟩
  rw [hfull]
  -- The enums before it are others, and names are distinct among types.
  refine hk.enumeration r written seen i _ hself fun j hj => ?_
  rw [← hfull]
  exact ho.not_known r ht (.enumeration j) (.enumeration i) (hw _ hj) hi hfit fun he => hm (he ▸ hj)

/-- What is shown of a part of the walk: fields of the types that it writes conform if what was
    written before is known, and what is written by then is known behind them. -/
def ConformsAlong (root : Ty) (outer : Option String) (written : Written) (ts : List Ty)
    (written' : Written) : Prop :=
  ∀ (fields : List Field) (seen : Seen), ts = fields.map Field.type →
    (∀ h, r.Holds h → hasDot (r.nameOf h) = true ∨ someSpace outer = none) →
    (∀ h ∈ written, r.Reaches root (.named h)) →
    (∀ field ∈ fields, r.Reaches root field.type ∧ isIdentifier field.name = true ∧
      DefaultFits r field.type field.cardinality field.default) →
    Knows r written seen →
    ∃ slots seen', Conforms r depth (someSpace outer) written seen fields slots written' seen' ∧
      Knows r written' seen'

namespace ConformsAlong

variable {r depth} {root : Ty} {outer : Option String} {written written₁ written' : Written}
  {ts : List Ty} {t : Ty}

omit ho in
/-- A type without parts is known as it stands. -/
theorem leaf {leaf : Schema} (hl : leafSchema t.core = some leaf)
    (ih : ConformsAlong r depth root outer written ts written') :
    ConformsAlong r depth root outer written (t :: ts) written' := by
  intro fields seen hts hlegible hw hf hk
  rcases exists_field_of_types hts with ⟨field, fields, rfl, rfl, hrest⟩
  rcases List.forall_mem_cons.mp hf with ⟨⟨_, hname, hd⟩, hf⟩
  rcases ih fields seen hrest hlegible hw hf hk with ⟨slots, seen', hc, hk'⟩
  refine ⟨_, seen', .leaf leaf hl ?_ hc, hk'⟩
  refine fieldConforms_of_defaultFits r _ depth field leaf hname (kind_of_leafSchema _ _ hl) ?_ hd
  intro schema hs
  rw [flatSchema_of_leafSchema r _ _ hl, Option.some.injEq] at hs
  rw [hs]
  exact .self

/-- What is written already is known, so a reference to it is read. -/
theorem reference (hheld : ∀ h, r.Reaches root (.named h) → r.Holds h) {h : Handle}
    (hcore : t.core = .named h) (hm : h ∈ written)
    (ih : ConformsAlong r depth root outer written ts written') :
    ConformsAlong r depth root outer written (t :: ts) written' := by
  intro fields seen hts hlegible hw hf hk
  rcases exists_field_of_types hts with ⟨field, fields, rfl, rfl, hrest⟩
  rcases List.forall_mem_cons.mp hf with ⟨⟨_, hname, hd⟩, hf⟩
  have hh := hheld h (hw h hm)
  rcases exists_fieldRead? r ho seen hk field h hcore hm hh (hlegible h hh) with
    ⟨schema, hread, hkind, hstands⟩
  rcases ih fields seen hrest hlegible hw hf hk with ⟨slots, seen', hc, hk'⟩
  exact ⟨_, seen', .reference h schema hcore hm hread
    (fieldConforms_of_defaultFits r _ depth field schema hname hkind hstands hd) hc, hk'⟩

/-- An enum is known from its definition on. -/
theorem enumeration (ht : r.Tidy) (hp : Plain r root) {i : Nat}
    (hcore : t.core = .named (.enumeration i)) (hm : .enumeration i ∉ written)
    (ih : ConformsAlong r depth root outer (.enumeration i :: written) ts written') :
    ConformsAlong r depth root outer written (t :: ts) written' := by
  intro fields seen hts hlegible hw hf hk
  have hheld := hp.complete.held
  rcases exists_field_of_types hts with ⟨field, fields, rfl, rfl, hrest⟩
  rcases List.forall_mem_cons.mp hf with ⟨⟨hr, hname, hd⟩, hf⟩
  have hi : r.Reaches root (.named (.enumeration i)) := hr.named r root _ _ hcore
  rcases enumConforms_of_orderly r ho ht seen hk i (hheld _ hi) (hp.names _ hi)
    (fun h hmem => hheld h (hw h hmem)) hm with ⟨seen₁, he, hk₁⟩
  rcases ih fields seen₁ hrest hlegible (List.forall_mem_cons.mpr ⟨hi, hw⟩) hf hk₁ with
    ⟨slots, seen', hc, hk'⟩
  refine ⟨_, seen', .enumeration seen₁ i _ hcore hm he ?_ hc, hk'⟩
  refine fieldConforms_of_defaultFits r _ depth field _ hname
    ⟨Kind.noConfusion, Kind.noConfusion⟩ ?_ hd
  -- The default fits the enum as it stands here.
  intro schema hs
  rw [hcore, flatSchema, Option.some.injEq] at hs
  rw [← hs]
  exact .self

/-- A record is pending while its fields are read, and complete behind them. -/
theorem struct (ht : r.Tidy) (hp : Plain r root) {i : Nat} {own : List Field} {docs : List Json}
    {refs : List Reference} (hcore : t.core = .named (.struct i)) (hm : .struct i ∉ written)
    (hown : (r.struct i).fields = some own)
    (body : Walk r (namespaceOf? (r.struct i).name) (.struct i :: written) (own.map Field.type)
      docs refs written₁)
    (ihb : ConformsAlong r depth root (namespaceOf? (r.struct i).name) (.struct i :: written)
      (own.map Field.type) written₁)
    (ihr : ConformsAlong r depth root outer written₁ ts written') :
    ConformsAlong r depth root outer written (t :: ts) written' := by
  intro fields seen hts hlegible hw hf hk
  have hheld := hp.complete.held
  rcases exists_field_of_types hts with ⟨field, fields, rfl, rfl, hrest⟩
  rcases List.forall_mem_cons.mp hf with ⟨⟨hr, hname, hd⟩, hf⟩
  have hi : r.Reaches root (.named (.struct i)) := hr.named r root _ _ hcore
  have hfull : inSpace (r.struct i).name none = (r.struct i).name :=
    ho.inSpace_nameOf r (.struct i) (hheld _ hi)
  have hw₀ : ∀ h ∈ Handle.struct i :: written, r.Reaches root (.named h) :=
    List.forall_mem_cons.mpr ⟨hi, hw⟩
  have hfields := fun field hm => And.intro
    (Registry.Reaches.field i own field hi hown hm) (ho.fields r i own hown field hm)
  have hk₀ := hk.start r written seen i (knownAliases (r.struct i).names)
  rw [← hfull] at hk₀
  rcases ihb own _ rfl (fun h hh => ho.legible r h hh i (hheld _ hi)) hw₀ hfields hk₀ with
    ⟨inner, seen₁, hbody, hk₁⟩
  have hw₁ := body.reached root hw₀ (hi.fields r root i own hown)
  -- No enum goes by a name of the record, so the enums are known behind it as before.
  have hk₂ := hk₁.finish r written₁ seen₁ (inSpace (r.struct i).name none)
    (knownAliases (r.struct i).names) (.record (inSpace (r.struct i).name none) inner)
    fun j hj => ho.not_known r ht (.enumeration j) (.struct i) (hheld _ (hw₁ _ hj))
      (hheld _ hi) (hp.names _ hi) Handle.noConfusion
  rcases ihr fields _ hrest hlegible hw₁ hf hk₂ with ⟨slots, seen', hc, hk'⟩
  refine ⟨_, seen', .struct seen₁ own inner i _ hcore hm
    (ho.names r _ (hheld _ hi)).conform hown hbody rfl rfl ?_ hc, hk'⟩
  refine fieldConforms_of_defaultFits r _ depth field _ hname
    ⟨Kind.noConfusion, Kind.noConfusion⟩ ?_ hd
  -- A record is not flat, so no default is a literal of it.
  intro schema hs
  rw [hcore] at hs
  simp only [flatSchema, leafSchema, reduceCtorEq] at hs

end ConformsAlong

/-- The fields of an orderly graph conform, and what they lead to is known. -/
theorem conforms_of_orderly (root : Ty) (ht : r.Tidy) (hp : Plain r root)
    {outer : Option String} {written written' : Written} {ts : List Ty} {es : List Json}
    {refs : List Reference} (hwalk : Walk r outer written ts es refs written') :
    ConformsAlong r depth root outer written ts written' := by
  -- What is written is known at every step, whatever else has been met by then.
  induction hwalk with
  | nil =>
      intro fields seen hts _ _ _ hk
      rw [eq_comm, List.map_eq_nil_iff] at hts
      rw [hts]
      exact ⟨[], seen, .nil _ _ _, hk⟩
  | scalar _ kind hcore _ ih => exact ih.leaf (by rw [hcore, leafSchema])
  | decimal _ type hcore _ ih => exact ih.leaf (by rw [hcore, leafSchema])
  | reference _ h hcore hm _ ih => exact .reference ho hp.complete.held hcore hm ih
  | enumeration _ i hcore hm _ ih => exact .enumeration ho ht hp hcore hm ih
  | struct written written₁ _ _ i own hcore hm hown body _ ihb ihr =>
      exact .struct ho ht hp hcore hm hown body ihb ihr

/-- An orderly graph conforms, whatever the depth. -/
theorem typeConforms_of_orderly (root : Ty) (ht : r.Tidy) (hp : Plain r root) (e : Json)
    (refs : List Reference) (final : Written) (hwalk : Walk r none [] [root] [e] refs final) :
    ∃ schema, TypeConforms r depth root schema := by
  have hheld := hp.complete.held
  cases hwalk with
  | scalar _ kind hcore _ => exact ⟨_, .leaf (by rw [hcore, leafSchema])⟩
  | decimal _ type hcore _ => exact ⟨_, .leaf (by rw [hcore, leafSchema])⟩
  -- Nothing is written before the root.
  | reference _ _ _ hm => exact absurd hm List.not_mem_nil
  | enumeration _ i hcore hm _ =>
      have hi : r.Reaches root (.named (.enumeration i)) := hcore ▸ Registry.Reaches.root.core
      rcases enumConforms_of_orderly r ho ht .empty (.nil r) i (hheld _ hi) (hp.names _ hi)
        (fun h hmem => absurd hmem List.not_mem_nil) hm with ⟨seen, he, _⟩
      exact ⟨_, .enumeration i seen hcore he⟩
  -- The root is no field, so it is started here and its fields are left to the walk.
  | struct _ written _ docs i own hcore hm hown body _ =>
      have hi : r.Reaches root (.named (.struct i)) := hcore ▸ Registry.Reaches.root.core
      have hfull : inSpace (r.struct i).name none = (r.struct i).name :=
        ho.inSpace_nameOf r (.struct i) (hheld _ hi)
      have hk := (Knows.nil r).start r [] .empty i (knownAliases (r.struct i).names)
      rw [← hfull] at hk
      rcases conforms_of_orderly r ho depth root ht hp body own _ rfl
        (fun h hh => ho.legible r h hh i (hheld _ hi))
        (fun h hmem => by rw [List.mem_singleton.mp hmem]; exact hi)
        (fun field hmem => ⟨.field i own field hi hown hmem, ho.fields r i own hown field hmem⟩)
        hk with ⟨inner, seen, hbody, _⟩
      exact ⟨_, .struct i own written _ hcore hown
        ⟨(ho.names r _ (hheld _ hi)).conform, inner, seen, hbody, rfl, rfl⟩⟩

end

end Avro

open Avro

/-- The export of an orderly graph is accepted. -/
theorem toAvro_of_orderly (r : Registry) (root : Ty) (ht : r.Tidy) (hp : Plain r root)
    (ho : Orderly r) : ∃ schema, toAvro r root = .ok schema := by
  rcases exists_export r root hp.complete with ⟨e, refs, final, hwalk⟩
  rcases typeConforms_of_orderly r ho e.depth root ht hp e refs final hwalk with ⟨schema, hc⟩
  exact ⟨schema, (toAvro_eq_ok_iff r ht root schema).mpr
    ⟨e, (toSchema_eq_ok_iff r root e).mpr ⟨refs, final, hwalk⟩, hc⟩⟩

theorem fromSchema_of_fromText (token : Nat) (text : String) (g : Registry) (root : Ty)
    (h : fromText token text = .ok (g, root)) : ∃ d, fromSchema token d = .ok (g, root) := by
  simp only [fromText, bind_eq_ok_iff] at h
  rcases h with ⟨d, _, _, _, himport⟩
  exact ⟨d, himport⟩

/-- What is imported from a valid text is exported, and the export is accepted exactly if the
    graph conforms. That is so if the graph is orderly. -/
theorem toAvro_of_fromText (token : Nat) (text : String) (g : Registry) (root : Ty)
    (h : fromText token text = .ok (g, root)) :
    ∃ e, toSchema g root = .ok e ∧
      (∀ schema, toAvro g root = .ok schema ↔ TypeConforms g e.depth root schema) ∧
      (Orderly g → ∃ schema, toAvro g root = .ok schema) := by
  rcases fromSchema_of_fromText token text g root h with ⟨d, himport⟩
  rcases plain_of_import token d g root himport with ⟨hp, ht, _⟩
  rcases exists_export g root hp.complete with ⟨e, refs, final, hwalk⟩
  have hexport := (toSchema_eq_ok_iff g root e).mpr ⟨refs, final, hwalk⟩
  refine ⟨e, hexport, fun schema => ?_, toAvro_of_orderly g root ht hp⟩
  -- There is only one export.
  rw [toAvro_eq_ok_iff g ht root schema]
  constructor
  · rintro ⟨e', hexport', hc⟩
    rw [hexport, Except.ok.injEq] at hexport'
    rwa [hexport']
  · exact fun hc => ⟨e, hexport, hc⟩

namespace Sample

/-- An order, which may follow on another, and is open unless another state is told. -/
def order : Json :=
  .object [("fields", .array [
      .object [("default", .string "OPEN"), ("name", .string "state"), ("type", .object [
        ("name", .string "State"), ("symbols", .array [.string "OPEN", .string "PAID"]),
        ("type", .string "enum")])],
      .object [("name", .string "follows"), ("type", .array [.string "null",
        .string "Order"])]]),
    ("name", .string "shop.Order"), ("type", .string "record")]

end Sample

open Sample

theorem toAvro_of_order : ∃ g root e schema, fromText 0 order.compact = .ok (g, root) ∧
    toSchema g root = .ok e ∧ toAvro g root = .ok schema ∧
      TypeConforms g e.depth root schema := by
  have hrun : (fromText 0 order.compact).toOption.any
      (fun import' => decide (Orderly import'.1)) = true := by decide +kernel
  rcases h : fromText 0 order.compact with err | ⟨g, root⟩
  · rw [h] at hrun
    exact absurd hrun Bool.false_ne_true
  · rw [h] at hrun
    rcases toAvro_of_fromText 0 order.compact g root h with ⟨e, hexport, hiff, horderly⟩
    rcases horderly (of_decide_eq_true hrun) with ⟨schema, hschema⟩
    exact ⟨g, root, e, schema, rfl, hexport, hschema, (hiff schema).mp hschema⟩

namespace Sample

/-- A record with a list of words, some of which may be missing, and one is by default. -/
def nullItem : Json :=
  .object [("fields", .array [.object [("default", .array [.null]), ("name", .string "a"),
      ("type", .object [("items", .array [.string "null", .string "string"]),
        ("type", .string "array")])]]),
    ("name", .string "R"), ("type", .string "record")]

end Sample

/-- An import forgets that the items of a list may be missing, and keeps the default. So the
    export is refused. -/
theorem nullItem_refused : ¬ ∀ text g root, fromText 0 text = .ok (g, root) →
    ∃ schema, toAvro g root = .ok schema := by
  intro hall
  have hrun : (fromText 0 nullItem.compact).toOption.any
      (fun import' => (toAvro import'.1 import'.2).toOption.isNone) = true := by decide +kernel
  rcases h : fromText 0 nullItem.compact with err | ⟨g, root⟩
  · rw [h] at hrun
    exact absurd hrun Bool.false_ne_true
  · rw [h] at hrun
    rcases hall nullItem.compact g root h with ⟨schema, hschema⟩
    have hnone : (toAvro g root).toOption.isNone = true := hrun
    rw [hschema] at hnone
    exact absurd hnone Bool.false_ne_true

end Schemata
