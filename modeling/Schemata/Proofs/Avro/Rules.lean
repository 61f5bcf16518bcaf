import Schemata.Avro.Document
import Schemata.Proofs.Avro.Conforming
import Schemata.Proofs.Avro.ReadBack
import Schemata.Proofs.Registry.Operations

/-!
# Documents Read by the Rules

What the parts of an exported document are read as when the rules of the schema
language are checked.

`ReadBack` asks the same of an import. The two readers differ in most details:
the rules look at the description of a field as if it was a schema, they know
of types that are complete and of types that are not, and they take an empty
namespace for none. Each statement here is about one kind of document and says
exactly when it is accepted and what is met then. What lies within a document
is left to the reader of its parts.

The depth that a reader counts down does not matter as long as it allows for
the document, so the statements about fields ask for a bound and nothing more.

## Main definitions

* `Avro.LeafDocument`: A document that is read as one schema wherever it stands.

## Theorems

* `Avro.run_names_eq_ok_iff`: When the names of a definition are accepted.
* `Avro.readEnum_eq_ok_iff`, `Avro.readRecord_eq_ok_iff`: Definitions.
* `Avro.readKind_fieldMembers_eq_ok_iff`: Names where a field holds them.
* `Avro.readField_eq_ok_iff`: A field, whatever its type is read as.
* `Avro.readField_string_eq_ok_iff`, `Avro.readField_object_eq_ok_iff`,
  `Avro.readField_leaf_eq_ok_iff`: A field, by how its type is written.
-/

namespace Schemata

namespace Avro

section

variable {α : Type} {seen seen' : Seen}

theorem run_ofOption_eq_ok_iff {option : Option α} {a : α} :
    Validation.ofOption option seen = .ok a seen' ↔ option = some a ∧ seen' = seen := by
  cases option with
  | none =>
      simp only [reduceCtorEq, false_and, iff_false]
      exact run_throw_ne_ok
  | some b =>
      rw [Validation.ofOption, run_pure_eq_ok_iff, Option.some.injEq]
      exact and_congr_right fun _ => eq_comm

theorem run_ofOption_bind {β : Type} (a : α) (f : α → Validation β) :
    (Validation.ofOption (some a) >>= f) seen = f a seen :=
  rfl

theorem run_require_eq_ok_iff {condition : Prop} [Decidable condition] (u : Unit) :
    Validation.require condition seen = .ok u seen' ↔ condition ∧ seen' = seen := by
  unfold Validation.require
  by_cases hc : condition
  · rw [if_pos hc, run_pure_eq_ok_iff]
    exact ⟨fun h => ⟨hc, h.2.symm⟩, fun h => ⟨rfl, h.2.symm⟩⟩
  · rw [if_neg hc]
    simp only [hc, false_and, iff_false]
    exact run_throw_ne_ok

theorem run_requireTypeName_eq_ok_iff (name : String) {u : Unit} :
    requireTypeName name seen = .ok u seen' ↔ isTypeName name = true ∧ seen' = seen := by
  unfold requireTypeName
  by_cases hn : isTypeName name = true
  · rw [if_pos hn, run_pure_eq_ok_iff]
    exact ⟨fun h => ⟨hn, h.2.symm⟩, fun h => ⟨rfl, h.2.symm⟩⟩
  · rw [if_neg hn]
    simp only [hn, Bool.false_eq_true, false_and, iff_false]
    exact run_throw_ne_ok

theorem run_forM_requireTypeName_eq_ok_iff (names : List String) (u : PUnit) :
    names.forM requireTypeName seen = .ok u seen' ↔
      (∀ name ∈ names, isTypeName name = true) ∧ seen' = seen := by
  induction names with
  | nil =>
      rw [List.forM_eq_forM, List.forM_nil, run_pure_eq_ok_iff]
      exact ⟨fun h => ⟨fun name hm => absurd hm List.not_mem_nil, h.2.symm⟩,
        fun h => ⟨rfl, h.2.symm⟩⟩
  | cons name rest ih =>
      rw [List.forM_eq_forM, List.forM_cons, run_bind_eq_ok_iff, List.forall_mem_cons]
      constructor
      · rintro ⟨_, seen₁, hname, hrest⟩
        rcases (run_requireTypeName_eq_ok_iff name).mp hname with ⟨hvalid, rfl⟩
        rcases ih.mp hrest with ⟨hall, hseen⟩
        exact ⟨⟨hvalid, hall⟩, hseen⟩
      · rintro ⟨⟨hvalid, hall⟩, hseen⟩
        exact ⟨(), seen, (run_requireTypeName_eq_ok_iff name).mpr ⟨hvalid, rfl⟩,
          ih.mpr ⟨hall, hseen⟩⟩

end

/-! ### Names -/

section

variable (seen seen' : Seen) (space written : Option String) (members : Members) (names : Names)

/-- A name that is written in full brings its own namespace along. -/
theorem readName_eq_ok_iff (hw : written = none → space = none)
    (hname : Json.find? "name" members = some (.string names.name))
    (hspace : Json.find? "namespace" members =
      Json.find? "namespace" (nameMembers written names.name)) (result : String × Option String) :
    readName space members seen = .ok result seen' ↔
      isTypeName names.name = true ∧ (ownSpace names.name).all isNamespace = true ∧
        result = (inSpace names.name none, ownSpace names.name) ∧ seen' = seen := by
  have htext : text? members "name" = some names.name := by
    rw [text?, hname]
    rfl
  -- A name without a dot is either marked with an empty namespace or not within one.
  have hown : someSpace (((namespaceOf? names.name).or (text? members "namespace")).or space)
      = ownSpace names.name := by
    unfold ownSpace
    rcases hn : namespaceOf? names.name with _ | own
    · have hdot := (namespaceOf?_eq_none_iff names.name).mp hn
      rw [text?, hspace, find?_nameMembers, if_neg (by decide), if_pos rfl, Option.none_or]
      cases written with
      | none =>
          rw [hw rfl, if_neg fun h => Bool.false_ne_true h.2]
          rfl
      | some outer =>
          rw [if_pos ⟨hdot, rfl⟩]
          rfl
    · rfl
  have hfull : qualify (localName names.name) (ownSpace names.name) = inSpace names.name none := by
    unfold inSpace ownSpace
    rw [show someSpace none = none from rfl, Option.or_none]
  unfold readName
  rw [htext]
  simp only [run_bind_eq_ok_iff, run_ofOption_eq_ok_iff, run_requireTypeName_eq_ok_iff,
    run_require_eq_ok_iff, run_pure_eq_ok_iff, Option.some.injEq]
  constructor
  · rintro ⟨name, _, ⟨rfl, rfl⟩, _, _, ⟨hvalid, rfl⟩, _, _, ⟨hall, rfl⟩, rfl, rfl⟩
    rw [hown] at hall ⊢
    exact ⟨hvalid, hall, by rw [hfull], rfl⟩
  · rintro ⟨hvalid, hall, rfl, rfl⟩
    refine ⟨_, _, ⟨rfl, rfl⟩, (), _, ⟨hvalid, rfl⟩, (), _, ⟨by rw [hown]; exact hall, rfl⟩, ?_, rfl⟩
    rw [hown, hfull]

theorem mapM_string?_map (list : List String) :
    (list.map Json.string).mapM Json.string? = some list := by
  induction list with
  | nil => rfl
  | cons item rest ih => rw [List.map_cons, List.mapM_cons, ih]; rfl

theorem readAliases_eq_ok_iff (own : Option String) (known : List String)
    (haliases : Json.find? "aliases" members = Json.find? "aliases" (aliasMember names)) :
    readAliases own members seen = .ok known seen' ↔
      (∀ name ∈ names.aliases.toList, isTypeName (qualify name own) = true) ∧
        known = (names.aliases.toList.map (qualify · own)).map (inSpace · own) ∧ seen' = seen := by
  -- An empty list of aliases is not written at all, and is read as an empty list.
  have hwritten : ((((Json.find? "aliases" members).bind Json.array?).bind
      (·.mapM Json.string?)).getD []) = names.aliases.toList := by
    rw [haliases, find?_aliasMember]
    by_cases hnil : names.aliases.toList = []
    · rw [if_pos rfl, if_pos hnil, hnil]
      rfl
    · rw [if_pos rfl, if_neg hnil, ofStrings]
      simp only [Option.bind_some, Json.array?, mapM_string?_map, Option.getD_some]
  unfold readAliases
  simp only [hwritten, run_bind_eq_ok_iff, run_forM_requireTypeName_eq_ok_iff, run_pure_eq_ok_iff,
    List.forall_mem_map]
  constructor
  · rintro ⟨_, _, ⟨hall, rfl⟩, rfl, rfl⟩
    exact ⟨hall, rfl, rfl⟩
  · rintro ⟨hall, rfl, rfl⟩
    exact ⟨⟨⟩, _, ⟨hall, rfl⟩, rfl, rfl⟩

/-- The names of a definition, and what is done with them. -/
theorem run_names_eq_ok_iff {α : Type} (hw : written = none → space = none)
    (hname : Json.find? "name" members = some (.string names.name))
    (hspace : Json.find? "namespace" members =
      Json.find? "namespace" (nameMembers written names.name))
    (haliases : Json.find? "aliases" members = Json.find? "aliases" (aliasMember names))
    (k : String × Option String → List String → Validation α) (a : α) :
    (readName space members >>= fun full => readAliases full.2 members >>= k full) seen
        = .ok a seen' ↔
      NamesConform names ∧
        k (inSpace names.name none, ownSpace names.name) (knownAliases names) seen
          = .ok a seen' := by
  rw [run_bind_eq_ok_iff]
  -- The name comes first and fixes the namespace in which the aliases are read.
  constructor
  · rintro ⟨full, seen₁, hread, h⟩
    rcases (readName_eq_ok_iff seen seen₁ space written members names hw hname hspace _).mp hread
      with ⟨hvalid, hall, rfl, rfl⟩
    rw [run_bind_eq_ok_iff] at h
    rcases h with ⟨known, seen₂, hknown, h⟩
    rcases (readAliases_eq_ok_iff seen₁ seen₂ members names _ known haliases).mp hknown with
      ⟨ha, rfl, rfl⟩
    exact ⟨⟨hvalid, hall, ha⟩, h⟩
  · rintro ⟨hn, h⟩
    refine ⟨_, seen, (readName_eq_ok_iff seen seen space written members names hw hname hspace
      _).mpr ⟨hn.name, hn.space, rfl, rfl⟩, ?_⟩
    rw [run_bind_of_ok ((readAliases_eq_ok_iff seen seen members names _ _ haliases).mpr
      ⟨hn.aliases, rfl, rfl⟩)]
    exact h

end

/-! ### Definitions -/

theorem run_standIn?_of_isSome (space : Option String) (kind content : String) (members : Members)
    (seen : Seen) (h : (Json.find? content members).isSome = true) :
    standIn? space kind content members seen = .ok none seen := by
  unfold standIn?
  rw [if_pos h, run_pure]

theorem run_standIn?_of_none (space : Option String) (kind content : String) (members : Members)
    (seen : Seen) (h : Json.find? content members = none) :
    standIn? space kind content members seen = .ok (seen.earlier? (inSpace kind space)) seen := by
  unfold standIn?
  rw [h, if_neg (by simp only [Option.isSome_none, Bool.false_eq_true, not_false_eq_true]),
    run_bind_of_ok (run_get seen), run_pure]

/-- An enum that was written is read as what it is. -/
theorem readEnum_eq_ok_iff (space written : Option String) (hw : written = none → space = none)
    (e : EnumType) (seen seen' : Seen) (schema : Schema) :
    readEnum space (enumMembers written e) seen = .ok schema seen' ↔
      EnumConforms e seen schema seen' := by
  have hsymbols : Json.find? "symbols" (enumMembers written e) = some (ofStrings e.symbols) := by
    simp [enumMembers, docMember]
  have hdefault : Json.find? "default" (enumMembers written e) = e.default.map .string := by
    simp [enumMembers, docMember]
  have hnodup : firstRepeated? [] e.symbols = none :=
    firstRepeated?_nil_eq_none_iff.mpr e.symbols_nodup
  unfold readEnum
  rw [run_bind_of_ok (run_standIn?_of_isSome space "enum" "symbols" _ seen (by rw [hsymbols]; rfl))]
  simp only []
  refine (run_names_eq_ok_iff seen seen' space written (enumMembers written e) e.names hw
    (by simp [enumMembers, docMember, EnumType.name])
    (by simp [enumMembers, docMember, EnumType.name]) (by simp [enumMembers, docMember]) _ _).trans
    ?_
  rw [hsymbols, hdefault, ofStrings, Option.bind_some, Json.array?, run_ofOption_bind,
    mapM_string?_map, run_ofOption_bind, run_bind_eq_ok_iff]
  simp only [run_require_eq_ok_iff, hnodup, and_true, List.all_eq_true]
  -- The default of an enum is one of its symbols.
  have hmem := e.default_mem
  rcases hd : e.default with _ | symbol
  · constructor
    · rintro ⟨hn, _, _, ⟨hs, rfl⟩, h⟩
      rw [Option.map_none] at h
      simp only [] at h
      injection h with hschema hseen
      exact ⟨hn, hs, by rw [hd]; exact hschema.symm, by rw [← hschema]; exact hseen.symm⟩
    · rintro ⟨hn, hs, hread, rfl⟩
      rw [hd] at hread
      rw [hread]
      exact ⟨hn, (), seen, ⟨hs, rfl⟩, rfl⟩
  · rw [hd] at hmem
    have hin : symbol ∈ e.symbols := hmem symbol rfl
    rw [Option.map_some]
    simp only []
    constructor
    · rintro ⟨hn, _, _, ⟨hs, rfl⟩, h⟩
      rw [Json.string?, run_ofOption_bind,
        run_bind_of_ok ((run_require_eq_ok_iff ()).mpr ⟨hin, rfl⟩)] at h
      injection h with hschema hseen
      exact ⟨hn, hs, by rw [hd]; exact hschema.symm, by rw [← hschema]; exact hseen.symm⟩
    · rintro ⟨hn, hs, hread, rfl⟩
      rw [hd] at hread
      refine ⟨hn, (), seen, ⟨hs, rfl⟩, ?_⟩
      rw [Json.string?, run_ofOption_bind,
        run_bind_of_ok ((run_require_eq_ok_iff ()).mpr ⟨hin, rfl⟩), hread]
      rfl

/-- A struct that was written is read as a record, if its fields can be told apart. -/
theorem readRecord_eq_ok_iff (read : Reader) (depth : Nat) (space written : Option String)
    (hw : written = none → space = none) (s : StructType) (descriptions : List Members)
    (hd : distinctFields [] descriptions = true) (seen seen' : Seen) (schema : Schema) :
    readRecord read depth space (structMembers written s (descriptions.map .object)) seen
        = .ok schema seen' ↔
      NamesConform s.names ∧ ∃ inner seen₁,
        descriptions.mapM (readField read depth (ownSpace s.name))
          (seen.start (inSpace s.name none) (knownAliases s.names)) = .ok inner seen₁ ∧
        schema = .record (inSpace s.name none) inner ∧
        seen' = seen₁.finish (inSpace s.name none) (knownAliases s.names) schema := by
  have hfields : Json.find? "fields" (structMembers written s (descriptions.map .object))
      = some (.array (descriptions.map .object)) := by
    simp [structMembers, docMember]
  have hobjects : (descriptions.map Json.object).filterMap Json.object? = descriptions := by
    rw [List.filterMap_map]
    exact List.filterMap_some
  unfold readRecord
  rw [run_bind_of_ok (run_standIn?_of_isSome space "record" "fields" _ seen (by rw [hfields]; rfl))]
  simp only []
  refine (run_names_eq_ok_iff seen seen' space written
    (structMembers written s (descriptions.map .object)) s.names hw
    (by simp [structMembers, docMember, StructType.name])
    (by simp [structMembers, docMember, StructType.name]) (by simp [structMembers, docMember])
    _ _).trans (and_congr_right fun _ => ?_)
  rw [run_bind_of_ok (run_modify _ seen), hfields, Option.bind_some, Json.array?,
    run_ofOption_bind, hobjects, run_bind_eq_ok_iff]
  refine exists_congr fun inner => exists_congr fun seen₁ => and_congr_right fun _ => ?_
  -- The fields are read. What is left cannot fail.
  rw [run_bind_of_ok ((run_require_eq_ok_iff ()).mpr ⟨hd, rfl⟩),
    run_bind_of_ok (run_modify _ seen₁), run_pure_eq_ok_iff]
  constructor
  · rintro ⟨rfl, rfl⟩
    exact ⟨rfl, rfl⟩
  · rintro ⟨rfl, rfl⟩
    exact ⟨rfl, rfl⟩

theorem filterMap_string?_map (list : List String) :
    (list.map Json.string).filterMap Json.string? = list := by
  rw [List.filterMap_map]
  exact List.filterMap_some

theorem fieldAliases_fieldMembers (field : Field) (type : Json) :
    fieldAliases (fieldMembers field type) = field.names.aliases.toList := by
  have hfind : Json.find? "aliases" (fieldMembers field type)
      = Json.find? "aliases" (aliasMember field.names) := by
    simp [fieldMembers, docMember]
  unfold fieldAliases
  rw [hfind, find?_aliasMember, if_pos rfl]
  by_cases hnil : field.names.aliases.toList = []
  · rw [if_pos hnil, hnil]
    rfl
  · rw [if_neg hnil, Option.bind_some, ofStrings, Json.array?, Option.getD_some,
      filterMap_string?_map]

theorem text?_name_fieldMembers (field : Field) (type : Json) :
    text? (fieldMembers field type) "name" = some field.name := by
  refine text?_eq _ ?_
  simp [fieldMembers, docMember]

/-- Fields that share no name are told apart by what is written of them. -/
theorem distinctFields_of_fieldsDistinct (fields : List Field) (docs : List Json)
    (seen : List String) (hd : FieldsDistinct fields)
    (hs : ∀ name ∈ fields.flatMap (·.names.all), name ∉ seen) :
    distinctFields seen (fields.zipWith fieldMembers docs) = true := by
  -- The check goes from field to field with the names that it has seen so far.
  induction fields generalizing docs seen with
  | nil => rfl
  | cons field fields ih =>
      cases docs with
      | nil => rfl
      | cons doc docs =>
          unfold FieldsDistinct at hd
          rw [List.flatMap_cons, List.nodup_append] at hd
          rw [List.flatMap_cons] at hs
          rw [List.zipWith_cons_cons, distinctFields, text?_name_fieldMembers,
            fieldAliases_fieldMembers]
          simp only [Bool.and_eq_true, decide_eq_true_eq]
          refine ⟨hs field.name (List.mem_append_left _ List.mem_cons_self),
            ih docs _ hd.2.1 fun name hm => ?_⟩
          rw [List.mem_append, not_or]
          exact ⟨fun hown => hd.2.2 name hown name hm rfl, hs name (List.mem_append_right _ hm)⟩

/-! ### Names of types -/

section

variable (seen seen' : Seen) (space : Option String) (name : String) (schema : Schema)

theorem readReference_eq_ok_iff : readReference space name seen = .ok schema seen' ↔
    seen.read? space name = some schema ∧ seen' = seen := by
  unfold readReference Seen.read?
  rcases hp : Schema.primitive? name with _ | primitive
  · -- A name that is no primitive is well formed and has been met.
    simp only [run_bind_eq_ok_iff, run_require_eq_ok_iff, Option.none_or]
    by_cases hn : isTypeName name = true
    · rw [if_pos hn]
      constructor
      · rintro ⟨_, _, ⟨_, rfl⟩, known, _, hget, h⟩
        injection hget with hknown hseen
        rw [← hknown, ← hseen, run_ofOption_eq_ok_iff] at h
        exact h
      · rintro ⟨h, rfl⟩
        exact ⟨(), _, ⟨hn, rfl⟩, _, _, run_get _, run_ofOption_eq_ok_iff.mpr ⟨h, rfl⟩⟩
    · rw [if_neg hn]
      simp only [hn, false_and, exists_false, reduceCtorEq]
  · rw [Option.some_or, run_pure_eq_ok_iff, Option.some.injEq]
    exact and_congr_right fun _ => eq_comm

/-- A word that begins a definition stands for a type of that name if nothing is defined. -/
theorem standIn_bind_eq_ok_iff (kind content : String) (members : Members)
    (hc : Json.find? content members = none) (rest : Validation Schema)
    (hrest : ∀ s, rest seen ≠ .ok schema s) :
    (standIn? space kind content members >>= fun found =>
      match found with
      | some schema => pure schema
      | none => rest) seen = .ok schema seen' ↔
    seen.earlier? (inSpace kind space) = some schema ∧ seen' = seen := by
  rw [run_bind_of_ok (run_standIn?_of_none space kind content members seen hc)]
  rcases seen.earlier? (inSpace kind space) with _ | found
  · simp only [reduceCtorEq, false_and, iff_false]
    exact hrest seen'
  · simp only [run_pure_eq_ok_iff, Option.some.injEq]
    exact and_congr_right fun _ => eq_comm

theorem find?_fieldMembers_eq_none (field : Field) (type : Json) (key : String)
    (h : key ∉ ["aliases", "default", "doc", "name", "type"]) :
    Json.find? key (fieldMembers field type) = none := by
  simp only [List.mem_cons, List.not_mem_nil, or_false, not_or] at h
  simp [fieldMembers, docMember, Ne.symm h.1, Ne.symm h.2.1, Ne.symm h.2.2.1, Ne.symm h.2.2.2.1,
    Ne.symm h.2.2.2.2]

theorem run_ofOption_none_ne_ok {α β : Type} {f : α → Validation β} {b : β} (s : Seen) :
    (Validation.ofOption none >>= f) seen ≠ .ok b s := by
  intro h
  rw [run_bind_eq_ok_iff] at h
  rcases h with ⟨a, seen₁, hnone, _⟩
  exact run_throw_ne_ok hnone

/-- The name of a type, as the type of a field that was written. -/
theorem readKind_fieldMembers_eq_ok_iff (read : Reader) (depth : Nat) (field : Field)
    (type : Json) :
    readKind read depth space name (fieldMembers field type) seen = .ok schema seen' ↔
      seen.readAsType? space name = some schema ∧ seen' = seen := by
  have hmissing := fun key h => find?_fieldMembers_eq_none field type key h
  unfold readKind Seen.readAsType?
  -- A word that begins a definition finds nothing of one in the description of a field.
  split
  · rw [if_neg (by decide), if_pos (by decide), readRecord]
    refine standIn_bind_eq_ok_iff seen seen' space schema "record" "fields" _
      (hmissing "fields" (by decide)) _ (run_bind_ne_ok fun full s₁ => ?_)
    refine run_bind_ne_ok fun known s₂ => run_bind_ne_ok fun _ s₃ => ?_
    rw [hmissing "fields" (by decide)]
    exact run_ofOption_none_ne_ok s₃
  · rw [if_neg (by decide), if_pos (by decide), readEnum]
    refine standIn_bind_eq_ok_iff seen seen' space schema "enum" "symbols" _
      (hmissing "symbols" (by decide)) _ (run_bind_ne_ok fun full s₁ => ?_)
    refine run_bind_ne_ok fun known s₂ => ?_
    rw [hmissing "symbols" (by decide)]
    exact run_ofOption_none_ne_ok s₂
  · rw [if_neg (by decide), if_pos (by decide), readFixed]
    refine standIn_bind_eq_ok_iff seen seen' space schema "fixed" "size" _
      (hmissing "size" (by decide)) _ ?_
    rw [hmissing "size" (by decide)]
    exact run_ofOption_none_ne_ok seen
  · rw [if_pos (by decide), hmissing "items" (by decide)]
    simp only [reduceCtorEq, false_and, iff_false]
    exact run_ofOption_none_ne_ok seen seen'
  · rw [if_pos (by decide), hmissing "values" (by decide)]
    simp only [reduceCtorEq, false_and, iff_false]
    exact run_ofOption_none_ne_ok seen seen'
  · next hrecord henum hfixed harray hmap =>
      rw [if_neg (not_or.mpr ⟨harray, hmap⟩),
        if_neg (not_or.mpr ⟨hrecord, not_or.mpr ⟨henum, hfixed⟩⟩)]
      exact readReference_eq_ok_iff seen seen' space name schema

end

/-! ### Fields -/

theorem readAt_string (depth bound : Nat) (space : Option String) (name : String) :
    readAt depth bound space (.string name) = readReference space name := by
  cases bound with
  | zero => rfl
  | succ bound => rfl

theorem fieldType_snd (type : Json) (cardinality : Cardinality) (default : Default) :
    (fieldType type cardinality default).2 = slotDefault cardinality default := by
  cases cardinality <;> cases default <;> rfl

/-- A schema may stand in a union with null if it is neither null nor a union. -/
theorem kinds_iff (kind : Kind) :
    (Kind.union ∉ [Kind.null, kind].filter (· ≠ .named) ∧
      ([Kind.null, kind].filter (· ≠ .named)).Nodup ↔ kind ≠ .null ∧ kind ≠ .union) ∧
    (Kind.union ∉ [kind, Kind.null].filter (· ≠ .named) ∧
      ([kind, Kind.null].filter (· ≠ .named)).Nodup ↔ kind ≠ .null ∧ kind ≠ .union) := by
  cases kind <;> simp

section

variable (depth bound : Nat) (space : Option String) (seen seen' : Seen) (type : Json)

/-- A union with null. -/
theorem readUnion_null_eq_ok_iff (schema : Schema) :
    (readUnion (readAt depth bound) space [.string "null", type] seen = .ok schema seen' ↔
      ∃ s, readAt depth bound space type seen = .ok s seen' ∧ (s.kind ≠ .null ∧ s.kind ≠ .union) ∧
        schema = .union [.null, s]) ∧
    (readUnion (readAt depth bound) space [type, .string "null"] seen = .ok schema seen' ↔
      ∃ s, readAt depth bound space type seen = .ok s seen' ∧ (s.kind ≠ .null ∧ s.kind ≠ .union) ∧
        schema = .union [s, .null]) := by
  -- Null is read without a look at what has been seen, so it can stand on either side.
  have hnull : ∀ s, readAt depth bound space (.string "null") s = .ok .null s := fun s => by
    rw [readAt_string]
    rfl
  unfold readUnion
  simp only [run_bind_eq_ok_iff, run_mapM_pair_eq_ok_iff, run_require_eq_ok_iff, run_pure_eq_ok_iff]
  constructor
  · constructor
    · rintro ⟨_, _, ⟨s, t, seen₁, hs, ht, rfl⟩, _, _, ⟨hk, rfl⟩, rfl, rfl⟩
      rw [hnull] at hs
      injection hs with hs hseen
      rw [← hs, List.map_cons, List.map_singleton] at hk
      rw [← hs, hseen]
      exact ⟨t, ht, (kinds_iff t.kind).1.mp hk, rfl⟩
    · rintro ⟨s, hs, hk, rfl⟩
      exact ⟨_, _, ⟨.null, s, seen, hnull seen, hs, rfl⟩, (), _, ⟨(kinds_iff s.kind).1.mpr hk, rfl⟩,
        rfl, rfl⟩
  · constructor
    · rintro ⟨_, _, ⟨s, t, seen₁, hs, ht, rfl⟩, _, _, ⟨hk, rfl⟩, rfl, rfl⟩
      rw [hnull] at ht
      injection ht with ht hseen
      rw [← ht, List.map_cons, List.map_singleton] at hk
      rw [← ht]
      exact ⟨s, hseen ▸ hs, (kinds_iff s.kind).2.mp hk, rfl⟩
    · rintro ⟨s, hs, hk, rfl⟩
      exact ⟨_, _, ⟨s, .null, seen', hs, hnull seen', rfl⟩, (), _,
        ⟨(kinds_iff s.kind).2.mpr hk, rfl⟩, rfl, rfl⟩

/-- A list. -/
theorem readArray_eq_ok_iff (schema : Schema) :
    readAt depth (bound + 1) space (arraySchema type) seen = .ok schema seen' ↔
      ∃ s, readAt depth bound space type seen = .ok s seen' ∧ schema = .array s := by
  have hrun : readAt depth (bound + 1) space (arraySchema type) seen
      = (readAt depth bound space type >>= fun s => pure (.array s)) seen := rfl
  rw [hrun]
  simp only [run_bind_eq_ok_iff, run_pure_eq_ok_iff]
  constructor
  · rintro ⟨s, _, hs, rfl, rfl⟩
    exact ⟨s, hs, rfl⟩
  · rintro ⟨s, hs, rfl⟩
    exact ⟨s, _, hs, rfl, rfl⟩

variable (field : Field) (H : Schema → Seen → Prop)

/-- The description of a field is read as the schema of the field, whatever its type is read
    as. -/
theorem readPlain_eq_ok_iff (hb : type.depth + 1 ≤ bound)
    (hread : field.cardinality ≠ .required → ∀ c, type.depth ≤ c → ∀ s seen₁,
      readAt depth c space type seen = .ok s seen₁ ↔ H s seen₁)
    (hdirect : field.cardinality = .required → ∀ s seen₁,
      readPlain (readAt depth bound) depth space (fieldMembers field type) seen = .ok s seen₁ ↔
        H s seen₁) (schema : Schema) :
    readPlain (readAt depth bound) depth space (fieldMembers field type) seen = .ok schema seen' ↔
      ∃ s, H s seen' ∧ (field.cardinality = .optional → s.kind ≠ .null ∧ s.kind ≠ .union) ∧
        schema = slotSchema s field.cardinality field.default := by
  have hfind := find?_type_fieldMembers field type
  -- By cardinality: the type itself, a union with null on either side, a list.
  rcases hc : field.cardinality with _ | _ | _
  · rw [hdirect hc]
    constructor
    · exact fun h => ⟨schema, h, fun hne => absurd hne (by decide), rfl⟩
    · rintro ⟨s, h, _, rfl⟩
      exact h
  · have hopt := fun c => hread (by rw [hc]; decide) c
    have hunion := readUnion_null_eq_ok_iff depth bound space seen seen' type schema
    rw [hc] at hfind
    unfold readPlain
    rw [hfind]
    rcases field.default with _ | _ | value
    · refine hunion.1.trans (exists_congr fun s => ?_)
      rw [hopt bound (by omega)]
      exact and_congr_right fun _ => and_congr_left fun _ => ⟨fun h _ => h, fun h => h rfl⟩
    · refine hunion.1.trans (exists_congr fun s => ?_)
      rw [hopt bound (by omega)]
      exact and_congr_right fun _ => and_congr_left fun _ => ⟨fun h _ => h, fun h => h rfl⟩
    · refine hunion.2.trans (exists_congr fun s => ?_)
      rw [hopt bound (by omega)]
      exact and_congr_right fun _ => and_congr_left fun _ => ⟨fun h _ => h, fun h => h rfl⟩
  · -- A list is one level deeper.
    rcases bound with _ | bound
    · omega
    have hlist : (fieldType type .repeated field.default).1 = arraySchema type := by
      cases field.default <;> rfl
    rw [hc, hlist] at hfind
    unfold readPlain
    rw [hfind]
    refine (readArray_eq_ok_iff depth bound space seen seen' type schema).trans
      (exists_congr fun s => ?_)
    rw [hread (by rw [hc]; decide) bound (by omega)]
    exact and_congr_right fun _ => ⟨fun h => ⟨fun hne => absurd hne (by decide), h⟩, fun h => h.2⟩

/-- A field that was written is read as its slot, if it breaks no rule. -/
theorem readField_eq_ok_iff (hb : type.depth + 1 ≤ bound)
    (hread : field.cardinality ≠ .required → ∀ c, type.depth ≤ c → ∀ s seen₁,
      readAt depth c space type seen = .ok s seen₁ ↔ H s seen₁)
    (hdirect : field.cardinality = .required → ∀ s seen₁,
      readPlain (readAt depth bound) depth space (fieldMembers field type) seen = .ok s seen₁ ↔
        H s seen₁) (result : Slot) :
    readField (readAt depth (bound + 1)) depth space (fieldMembers field type) seen
        = .ok result seen' ↔
      ∃ s, H s seen' ∧ FieldConforms seen'.complete depth field s ∧ result = slot field s := by
  have hplain := fun schema seen' =>
    readPlain_eq_ok_iff depth bound space seen seen' type field H hb hread hdirect schema
  -- The description of a field has no logical type, so it is read by its type.
  have hobject : readAt depth (bound + 1) space (.object (fieldMembers field type))
      = readPlain (readAt depth bound) depth space (fieldMembers field type) := by
    rw [readAt, readWith, readObject,
      find?_fieldMembers_eq_none field type "logicalType" (by decide)]
  unfold readField
  rw [text?_name_fieldMembers, run_ofOption_bind, hobject, find?_default_fieldMembers,
    fieldType_snd, run_bind_eq_ok_iff]
  constructor
  · rintro ⟨_, seen₁, hname, h⟩
    rcases (run_require_eq_ok_iff _).mp hname with ⟨hvalid, rfl⟩
    rw [run_bind_eq_ok_iff] at h
    rcases h with ⟨schema, seen₂, hschema, h⟩
    rcases (hplain schema seen₂).mp hschema with ⟨s, hs, hbranch, rfl⟩
    rcases hd : slotDefault field.cardinality field.default with _ | value
    · rw [hd] at h
      simp only [run_pure_eq_ok_iff] at h
      rcases h with ⟨rfl, rfl⟩
      refine ⟨s, hs, ⟨hvalid, hbranch, fun value hv => ?_⟩, by rw [slot, hd]⟩
      rw [hd] at hv
      exact nomatch hv
    · rw [hd] at h
      simp only [] at h
      rw [run_bind_of_ok (run_get seen₂), run_bind_eq_ok_iff] at h
      rcases h with ⟨_, seen₃, hcheck, h⟩
      rcases (run_ofExcept_eq_ok_iff _).mp hcheck with ⟨hdefault, rfl⟩
      rw [run_pure_eq_ok_iff] at h
      rcases h with ⟨rfl, rfl⟩
      refine ⟨s, hs, ⟨hvalid, hbranch, fun value' hv => ?_⟩, by rw [slot, hd]⟩
      rw [hd, Option.mem_def, Option.some.injEq] at hv
      rw [← hv]
      exact hdefault
  · rintro ⟨s, hs, hf, rfl⟩
    refine ⟨(), seen, (run_require_eq_ok_iff _).mpr ⟨hf.name, rfl⟩, ?_⟩
    rw [run_bind_of_ok ((hplain _ _).mpr ⟨s, hs, hf.branch, rfl⟩), slot]
    rcases hd : slotDefault field.cardinality field.default with _ | value
    · rfl
    · simp only []
      rw [run_bind_of_ok (run_get seen'), run_bind_of_ok
        ((run_ofExcept_eq_ok_iff ()).mpr ⟨hf.default value hd, rfl⟩), run_pure]

/-- A field whose type is written as a name. -/
theorem readField_string_eq_ok_iff (name : String) (hb : 1 ≤ bound) (result : Slot) :
    readField (readAt depth (bound + 1)) depth space (fieldMembers field (.string name)) seen
        = .ok result seen' ↔
      ∃ s, fieldRead? seen space field name = some s ∧ seen' = seen ∧
        FieldConforms seen.complete depth field s ∧ result = slot field s := by
  rw [readField_eq_ok_iff depth bound space seen seen' (.string name) field
    (fun s seen₁ => fieldRead? seen space field name = some s ∧ seen₁ = seen) hb ?_ ?_]
  · simp only [and_assoc]
    refine exists_congr fun s => and_congr_right fun _ => and_congr_right fun hseen => ?_
    rw [hseen]
  · -- In a union or an array the name stands for a type by itself.
    intro hc c _ s seen₁
    rw [readAt_string, readReference_eq_ok_iff, fieldRead?, if_neg hc]
  · -- Alone it is the type of the field, where the words
    -- for the kinds of types come before the names.
    intro hc s seen₁
    have hfind := find?_type_fieldMembers field (.string name)
    rw [hc, show (fieldType (.string name) .required field.default).1 = .string name by
      cases field.default <;> rfl] at hfind
    unfold readPlain
    rw [hfind, fieldRead?, if_pos hc]
    exact readKind_fieldMembers_eq_ok_iff seen seen₁ space name s _ depth field (.string name)

/-- A field whose type is written as an object. -/
theorem readField_object_eq_ok_iff (members : Members)
    (hb : (Json.object members).depth + 1 ≤ bound)
    (hread : ∀ c, (Json.object members).depth ≤ c → ∀ s seen₁,
      readAt depth c space (.object members) seen = .ok s seen₁ ↔ H s seen₁) (result : Slot) :
    readField (readAt depth (bound + 1)) depth space (fieldMembers field (.object members)) seen
        = .ok result seen' ↔
      ∃ s, H s seen' ∧ FieldConforms seen'.complete depth field s ∧ result = slot field s := by
  refine readField_eq_ok_iff depth bound space seen seen' (.object members) field H hb
    (fun _ => hread) (fun hc s seen₁ => ?_) result
  have hfind := find?_type_fieldMembers field (.object members)
  rw [hc, show (fieldType (.object members) .required field.default).1 = .object members by
    cases field.default <;> rfl] at hfind
  unfold readPlain
  rw [hfind]
  exact hread bound (by omega) s seen₁

end

/-! ### Types without parts -/

section

variable (depth bound : Nat) (space : Option String) (seen : Seen)

theorem readAt_logicalSchema (kind : ScalarKind) (members : Members)
    (hk : scalarSchema kind = .object members) :
    readAt depth (bound + 1) space (.object members) seen = .ok (scalarLeaf kind) seen := by
  rw [← hk]
  cases kind <;> first
    | exact absurd hk Json.noConfusion
    | (cases bound <;> rfl)

theorem readAt_decimalSchema (type : DecimalType) (members : Members)
    (hk : decimalSchema type = .object members) :
    readAt depth (bound + 1) space (.object members) seen = .ok (decimalLeaf type) seen := by
  rcases (decimalSchema_eq_object_iff type members).mp hk with ⟨hint, hlong, rfl⟩
  rw [decimalLeaf, if_neg hint, if_neg hlong]
  have hbase : readBase (readAt depth bound) space isBinary (decimalMembers type) seen
      = .ok .bytes seen := by
    cases bound <;> rfl
  -- Precision and scale are read back, and they suit each other in any decimal type.
  change readDecimal (readAt depth bound) space _ seen = _
  unfold readDecimal
  rw [run_bind_of_ok hbase]
  change (Validation.ofOption (some type.precision) >>= fun precision =>
    Validation.ofOption (some type.scale) >>= fun scale =>
      Validation.require (1 ≤ precision ∧ scale ≤ precision) >>= fun _ =>
        pure (Schema.decimal precision scale .bytes)) seen = _
  rw [run_ofOption_bind, run_ofOption_bind, run_bind_of_ok
    ((run_require_eq_ok_iff ()).mpr ⟨⟨type.precision_pos, type.scale_le⟩, rfl⟩), run_pure]

end

theorem fieldRead?_primitive (seen : Seen) (space : Option String) (field : Field) (name : String)
    (schema : Schema) (h : Schema.primitive? name = some schema) :
    fieldRead? seen space field name = some schema := by
  have hwords : name ∉ kindWords := by
    intro hm
    have hnone : ∀ word ∈ kindWords, (Schema.primitive? word).isNone = true := by decide
    have hname := hnone name hm
    rw [h] at hname
    exact absurd hname Bool.false_ne_true
  rw [fieldRead?_eq_read? seen space field name hwords, Seen.read?, h, Option.some_or]

/-- The document is read as the schema, wherever it stands. -/
def LeafDocument (depth : Nat) (doc : Json) (schema : Schema) : Prop :=
  (∃ name, doc = .string name ∧ Schema.primitive? name = some schema) ∨
    ∃ members, doc = .object members ∧ ∀ bound space seen,
      readAt depth (bound + 1) space (.object members) seen = .ok schema seen

theorem leafDocument_scalarSchema (depth : Nat) (kind : ScalarKind) :
    LeafDocument depth (scalarSchema kind) (scalarLeaf kind) := by
  rcases hk : scalarSchema kind with _ | _ | _ | _ | name | _ | members
  case object =>
    exact Or.inr ⟨members, rfl, fun bound space seen =>
      readAt_logicalSchema depth bound space seen kind members hk⟩
  case string =>
    refine Or.inl ⟨name, rfl, ?_⟩
    cases kind <;> first
      | exact absurd hk Json.noConfusion
      | (rw [← Json.string.inj hk]; rfl)
  all_goals
    cases kind <;> exact absurd hk Json.noConfusion

theorem leafDocument_decimalSchema (depth : Nat) (type : DecimalType) :
    LeafDocument depth (decimalSchema type) (decimalLeaf type) := by
  rcases decimalSchema_cases type with ⟨rfl, h⟩ | ⟨rfl, h⟩ | ⟨_, _, h⟩
  · exact Or.inl ⟨"int", h, rfl⟩
  · exact Or.inl ⟨"long", h, rfl⟩
  · exact Or.inr ⟨_, h, fun bound space seen =>
      readAt_decimalSchema depth bound space seen type _ h⟩

/-- A field of a type without parts. -/
theorem readField_leaf_eq_ok_iff (depth bound : Nat) (space : Option String) (seen seen' : Seen)
    (field : Field) (doc : Json) (schema : Schema) (hdoc : LeafDocument depth doc schema)
    (hb : doc.depth + 1 ≤ bound) (result : Slot) :
    readField (readAt depth (bound + 1)) depth space (fieldMembers field doc) seen
        = .ok result seen' ↔
      seen' = seen ∧ FieldConforms seen.complete depth field schema ∧
        result = slot field schema := by
  rcases hdoc with ⟨name, rfl, hp⟩ | ⟨members, rfl, hread⟩
  · rw [readField_string_eq_ok_iff depth bound space seen seen' field name (by omega),
      fieldRead?_primitive seen space field name schema hp]
    constructor
    · rintro ⟨s, hs, hseen, hf, hresult⟩
      rw [← Option.some.inj hs] at hf hresult
      exact ⟨hseen, hf, hresult⟩
    · exact fun h => ⟨schema, rfl, h⟩
  · rw [readField_object_eq_ok_iff depth bound space seen seen' field
      (fun s seen₁ => s = schema ∧ seen₁ = seen) members hb fun c hc s seen₁ => ?_]
    · constructor
      · rintro ⟨s, ⟨rfl, rfl⟩, hf, hresult⟩
        exact ⟨rfl, hf, hresult⟩
      · rintro ⟨rfl, hf, hresult⟩
        exact ⟨schema, ⟨rfl, rfl⟩, hf, hresult⟩
    · -- What is written lies below the bound, so there is a step left to read it.
      rcases c with _ | c
      · rw [Json.depth] at hc
        omega
      · rw [hread, EStateM.Result.ok.injEq]
        exact ⟨fun h => ⟨h.1.symm, h.2.symm⟩, fun h => ⟨h.1.symm, h.2.symm⟩⟩

end Avro

end Schemata
