import Mathlib.Logic.Function.Basic
import Schemata.Proofs.Built
import Schemata.Proofs.Registry.Headings

/-!
# Keeping Indexes of Fields

A lookup among the fields of a struct goes through all of them. The alternative
is an index that says for each name at which place its field stands. It is built
when the fields are assigned, and a renaming brings it up to date.

Building the index is also how repeated names come to light. Names are put in
one after the other, field by field, and the first one that stands there already
ends it. That is the first repetition in the list of all names
(`FieldIndex.ofFields_eq_error_iff`), so it makes no difference whether the list
is searched for repetitions or the index is built and thrown away.

A renaming asks the index whether another field has the new name, and then adds
that name. It takes none away, since the old name becomes an alias, and when an
alias becomes the live name there is nothing to add. `FieldsIndexed.exact` says
that in this way index and fields never drift apart, whatever is renamed to what
and how often.

## Main definitions

* `FieldIndex`: The place of the field that carries each name.
* `FieldIndex.ofFields`: The index of a field list, or the first repeated name.
* `FieldIndex.Exact`: The index has what the fields carry.
* `Registry.FieldsIndexed`: A registry and the indexes that operations keep beside
  the fields of its structs.

## Theorems

* `FieldIndex.exists_ofFields_iff`, `FieldIndex.ofFields_eq_error_iff`: When an
  index can be built, and what stops it.
* `FieldIndex.Exact.eq_fieldIndex?`: An exact index is the lookup.
* `StructType.position_eq_ok_iff`, `StructType.getField_eq_ok_iff`: A lookup finds
  the field that carries the name.
* `Registry.FieldsIndexed.exact`: The indexes that operations keep are exact.
* `Registry.Built.exists_fieldsIndexed`: Whatever operations make, such indexes can
  follow.
-/

namespace Schemata

/-- The place of the field that carries each name. -/
abbrev FieldIndex :=
  NameIndex Nat

namespace FieldIndex

/-- Put places under names, one after the other, until a name is there already. -/
def insertAll (index : FieldIndex) : List (String × Nat) → Except String FieldIndex
  | [] => .ok index
  | (name, place) :: rest =>
    if (index name).isSome then .error name else insertAll (index.insert name place) rest

/-- The names of some fields, each with the place of its field. -/
def entries (fields : List Field) : List (String × Nat) :=
  fields.zipIdx.flatMap fun entry => entry.1.names.all.map (·, entry.2)

/-- The index of some fields, or the first name that is there twice. -/
def ofFields (fields : List Field) : Except String FieldIndex :=
  insertAll .empty (entries fields)

/-- A place stands under a name exactly if the field there carries it. -/
def Exact (index : FieldIndex) (fields : List Field) : Prop :=
  ∀ name place, index name = some place ↔
    ∃ field, fields[place]? = some field ∧ field.names.Carries name

/-! ### Building an index -/

theorem mem_entries (fields : List Field) (name : String) (place : Nat) :
    (name, place) ∈ entries fields ↔
      ∃ field, fields[place]? = some field ∧ field.names.Carries name := by
  unfold entries
  rw [List.mem_flatMap]
  constructor
  · rintro ⟨⟨field, k⟩, hm, hname⟩
    rw [List.mem_zipIdx_iff_getElem?] at hm
    rcases List.mem_map.mp hname with ⟨x, hx, he⟩
    rw [Prod.mk.injEq] at he
    rw [← he.1, ← he.2]
    exact ⟨field, hm, hx⟩
  · rintro ⟨field, hf, hc⟩
    exact ⟨(field, place), List.mem_zipIdx_iff_getElem?.mpr hf, List.mem_map.mpr ⟨name, hc, rfl⟩⟩

theorem map_fst_entries (fields : List Field) :
    (entries fields).map Prod.fst = fields.flatMap (·.names.all) := by
  have hfst : ∀ entry : Field × Nat,
      (entry.1.names.all.map (·, entry.2)).map Prod.fst = entry.1.names.all := by
    intro entry
    rw [List.map_map]
    exact List.map_id _
  unfold entries
  simp only [List.map_flatMap, hfst]
  rw [← List.flatMap_map Prod.fst fun field : Field => field.names.all, List.zipIdx_map_fst]

section

variable (index index' : FieldIndex)

/-- The index knows which names have been seen, so it stops at the first that is repeated. -/
theorem insertAll_eq_error_iff (list : List (String × Nat)) (seen : List String)
    (hs : ∀ x, x ∈ seen ↔ (index x).isSome = true) (name : String) :
    index.insertAll list = .error name ↔
      firstRepeated? seen (list.map Prod.fst) = some name := by
  induction list generalizing index seen with
  | nil => simp only [insertAll, List.map_nil, firstRepeated?, reduceCtorEq]
  | cons entry rest ih =>
      rw [insertAll, List.map_cons, firstRepeated?]
      by_cases hm : entry.1 ∈ seen
      · rw [if_pos hm, if_pos ((hs _).mp hm), Except.error.injEq, Option.some.injEq]
      · rw [if_neg hm, if_neg fun h => hm ((hs _).mpr h)]
        -- The index knows one more name from here on, and so does the list of those seen.
        refine ih (index.insert entry.1 entry.2) (entry.1 :: seen) fun x => ?_
        by_cases hx : x = entry.1
        · simp only [hx, List.mem_cons_self, NameIndex.insert, if_true, Option.isSome_some]
        · simp only [List.mem_cons, hx, false_or, NameIndex.insert, if_false, hs x]

/-- What has been put in stands there, besides what stood there before. -/
theorem insertAll_eq_ok (list : List (String × Nat)) (h : index.insertAll list = .ok index')
    (name : String) (place : Nat) :
    index' name = some place ↔ index name = some place ∨ (name, place) ∈ list := by
  induction list generalizing index with
  | nil =>
      rw [insertAll, Except.ok.injEq] at h
      simp only [h, List.not_mem_nil, or_false]
  | cons entry rest ih =>
      rw [insertAll] at h
      by_cases hsome : (index entry.1).isSome = true
      · rw [if_pos hsome] at h
        exact nomatch h
      · rw [if_neg hsome] at h
        rw [ih (index.insert entry.1 entry.2) h, List.mem_cons]
        by_cases hname : name = entry.1
        · -- Until now the name stood for nothing.
          rw [Bool.not_eq_true, Option.isSome_eq_false_iff, Option.isNone_iff_eq_none] at hsome
          rw [NameIndex.insert, if_pos hname, hname, hsome]
          simp only [Option.some.injEq, reduceCtorEq, false_or, Prod.ext_iff, true_and]
          rw [eq_comm]
        · rw [NameIndex.insert, if_neg hname]
          simp only [Prod.ext_iff, hname, false_and, false_or]

/-- An index that could be built is exact. -/
theorem exact_ofFields (fields : List Field) (h : ofFields fields = .ok index) :
    index.Exact fields := by
  intro name place
  rw [insertAll_eq_ok .empty index (entries fields) h, mem_entries]
  simp only [NameIndex.empty, reduceCtorEq, false_or]

/-- What stops the building is the first name that is repeated. -/
theorem ofFields_eq_error_iff (fields : List Field) (name : String) :
    ofFields fields = .error name ↔
      firstRepeated? [] (fields.flatMap (·.names.all)) = some name := by
  rw [ofFields, ← map_fst_entries]
  refine insertAll_eq_error_iff .empty (entries fields) [] (fun x => ?_) name
  simp only [List.not_mem_nil, NameIndex.empty, Option.isSome_none, Bool.false_eq_true]

/-- An index can be built if no name is carried by two fields. -/
theorem exists_ofFields_iff (fields : List Field) :
    (∃ index, ofFields fields = .ok index) ↔ FieldsDistinct fields := by
  rw [FieldsDistinct, ← firstRepeated?_nil_eq_none_iff]
  rcases h : ofFields fields with name | index
  · rw [ofFields_eq_error_iff] at h
    simp only [h, reduceCtorEq, exists_false]
  · simp only [Except.ok.injEq, exists_eq', true_iff]
    rcases hr : firstRepeated? [] (fields.flatMap (·.names.all)) with _ | name
    · exact hr
    · rw [← ofFields_eq_error_iff, h] at hr
      cases hr

end

/-! ### Exact indexes -/

namespace Exact

variable (index : FieldIndex) (fields : List Field)

/-- An exact index is the lookup. -/
theorem eq_fieldIndex? (he : index.Exact fields) : index = StructType.fieldIndex? fields := by
  funext name
  rcases hf : StructType.fieldIndex? fields name with _ | place
  · rcases hi : index name with _ | place
    · rfl
    · rcases (he name place).mp hi with ⟨field, hplace, hc⟩
      rw [StructType.fieldIndex?, List.findIdx?_eq_none_iff] at hf
      exact absurd hc (of_decide_eq_false (hf field (List.mem_of_getElem? hplace)))
  · rw [StructType.fieldIndex?, List.findIdx?_eq_some_iff_getElem] at hf
    rcases hf with ⟨hp, hc, _⟩
    exact (he name place).mpr ⟨fields[place], List.getElem?_eq_getElem hp, of_decide_eq_true hc⟩

/-- An index stays exact where no field gets or loses a name. -/
theorem of_same (he : index.Exact fields) (fields' : List Field)
    (hn : fields'.map Field.names = fields.map Field.names) : index.Exact fields' := by
  intro name place
  rw [he name place]
  have hplace : (fields'[place]?).map Field.names = (fields[place]?).map Field.names := by
    rw [← List.getElem?_map, ← List.getElem?_map, hn]
  -- Both sides only ask for the names at the place.
  have hnames : ∀ fs : List Field, (∃ field, fs[place]? = some field ∧ field.names.Carries name) ↔
      ∃ names, (fs[place]?).map Field.names = some names ∧ names.Carries name := by
    intro fs
    simp only [Option.map_eq_some_iff]
    constructor
    · rintro ⟨field, hf, hc⟩
      exact ⟨_, ⟨field, hf, rfl⟩, hc⟩
    · rintro ⟨_, ⟨field, hf, rfl⟩, hc⟩
      exact ⟨field, hf, hc⟩
  rw [hnames, hnames, hplace]

/-- A field is renamed: the new name is added, and the old one stays as an alias. -/
theorem rename (he : index.Exact fields) (place : Nat) (field : Field) (name : String)
    (scope : Scope) (names : Names) (hf : fields[place]? = some field)
    (hn : field.names.rename name scope ((index name).any (· ≠ place)) = .ok names) :
    FieldIndex.Exact (index.insert name place)
      (fields.set place { field with names := names }) := by
  have hcarries := Names.carries_rename hn
  have hlt : place < fields.length := (List.getElem?_eq_some_iff.mp hf).1
  -- Until now the name stood for this field or for none.
  have hfree : ∀ k, index name = some k → k = place := by
    intro k hk
    rcases Names.free_of_rename hn with hown | htaken
    · rw [(he name place).mpr ⟨field, hf, hown⟩, Option.some.injEq] at hk
      exact hk.symm
    · rw [hk, Option.any_some, decide_eq_false_iff_not, not_not] at htaken
      exact htaken
  intro x k
  rw [NameIndex.insert]
  by_cases hk : place = k
  · -- At the place of the field its names and the new one are found.
    rw [← hk, List.getElem?_set_self hlt]
    simp only [Option.some.injEq, exists_eq_left', hcarries x]
    by_cases hx : x = name
    · rw [if_pos hx]
      simp only [hx, or_true]
    · rw [if_neg hx, he x place, hf]
      simp only [Option.some.injEq, exists_eq_left', hx, or_false]
  · rw [List.getElem?_set_ne hk]
    by_cases hx : x = name
    · rw [if_pos hx, Option.some.injEq, hx, ← he name k]
      exact ⟨fun h => absurd h hk, fun h => absurd (hfree k h).symm hk⟩
    · rw [if_neg hx, he x k]

end Exact

end FieldIndex

/-! ### Lookups among fields -/

namespace StructType

section

variable (s : StructType) (fields : List Field)

/-- A lookup finds a field exactly if it carries the name. -/
theorem fieldIndex?_eq_some_iff (hd : FieldsDistinct fields) (name : String) (place : Nat) :
    fieldIndex? fields name = some place ↔
      ∃ field, fields[place]? = some field ∧ field.names.Carries name := by
  rcases (FieldIndex.exists_ofFields_iff fields).mpr hd with ⟨index, hindex⟩
  have he := FieldIndex.exact_ofFields index fields hindex
  rw [← he.eq_fieldIndex? index fields]
  exact he name place

theorem position_eq_ok_iff (hf : s.fields = some fields) (hd : FieldsDistinct fields)
    (name : String) (place : Nat) : s.position name = .ok place ↔
      ∃ field, fields[place]? = some field ∧ field.names.Carries name := by
  rw [← fieldIndex?_eq_some_iff fields hd, position, hf]
  simp only []
  cases fieldIndex? fields name with
  | none => simp only [reduceCtorEq]
  | some k => simp only [Except.ok.injEq, Option.some.injEq]

theorem getField_eq_ok_iff (hf : s.fields = some fields) (hd : FieldsDistinct fields)
    (name : String) (field : Field) : s.getField name = .ok field ↔
      ∃ place : Nat, fields[place]? = some field ∧ field.names.Carries name := by
  have hfind : s.getField name = .ok field ↔
      ∃ place, fieldIndex? fields name = some place ∧ fields[place]? = some field := by
    rw [getField, hf]
    simp only [List.find?_eq_bind_findIdx?_getElem?]
    rw [← fieldIndex?]
    rcases fieldIndex? fields name with _ | place
    · simp only [Option.bind_none, reduceCtorEq, false_and, exists_false]
    · simp only [Option.bind_some, Option.some.injEq, exists_eq_left']
      cases fields[place]? with
      | none => simp only [reduceCtorEq]
      | some found => simp only [Except.ok.injEq, Option.some.injEq]
  -- The first field that carries the name is the only one.
  rw [hfind]
  refine exists_congr fun place => ?_
  rw [fieldIndex?_eq_some_iff fields hd]
  constructor
  · rintro ⟨⟨found, hfound, hc⟩, hplace⟩
    rw [hplace, Option.some.injEq] at hfound
    exact ⟨hplace, hfound ▸ hc⟩
  · rintro ⟨hplace, hc⟩
    exact ⟨⟨field, hplace, hc⟩, hplace⟩

end

end StructType

namespace Registry

/-- A registry, and the indexes that operations keep beside the fields of its structs. What an
    operation needs to know about the names of fields it asks of the index. -/
inductive FieldsIndexed : Registry → (Nat → FieldIndex) → Prop
  | new (token : Nat) : FieldsIndexed (.new token) fun _ => .empty
  | other (r r' : Registry) (indexes : Nat → FieldIndex) (hr : FieldsIndexed r indexes)
      (h : ∀ i, (r'.struct i).fields = (r.struct i).fields) : FieldsIndexed r' indexes
  | copy (q r : Registry) (qs indexes : Nat → FieldIndex) (j : Nat) (s : StructType)
      (hq : FieldsIndexed q qs) (hr : FieldsIndexed r indexes)
      (hs : s.fields = (q.struct j).fields) :
      FieldsIndexed (r.appendStruct s) (Function.update indexes r.structs.length (qs j))
  | assign (r r' : Registry) (indexes : Nat → FieldIndex) (i : Nat) (fields : List Field)
      (index : FieldIndex) (hr : FieldsIndexed r indexes)
      (hi : FieldIndex.ofFields fields = .ok index) (h : r.setFields i fields = .ok r') :
      FieldsIndexed r' (Function.update indexes i index)
  | rename (r : Registry) (indexes : Nat → FieldIndex) (i place : Nat) (fields : List Field)
      (field : Field) (name : String) (names : Names) (hr : FieldsIndexed r indexes)
      (hf : (r.struct i).fields = some fields) (hp : fields[place]? = some field)
      (h : field.names.rename name (.fieldsOf (r.struct i).name)
        ((indexes i name).any (· ≠ place)) = .ok names) :
      FieldsIndexed (r.setStruct i { r.struct i with
          fields := some (fields.set place { field with names := names }) })
        (if name = field.name then indexes
          else Function.update indexes i ((indexes i).insert name place))
  | document (r : Registry) (indexes : Nat → FieldIndex) (i place : Nat) (doc : Option String)
      (hr : FieldsIndexed r indexes) : FieldsIndexed (r.documentFieldAt i place doc) indexes

/-- Beside the fields of each struct there is an exact index. -/
def FieldsExact (r : Registry) (indexes : Nat → FieldIndex) : Prop :=
  ∀ i fields, (r.struct i).fields = some fields → (indexes i).Exact fields

namespace FieldsExact

variable (r : Registry) (indexes : Nat → FieldIndex)

/-- One struct is replaced, and one index with it. -/
theorem setStruct (he : r.FieldsExact indexes) (i : Nat) (s : StructType) (index : FieldIndex)
    (hs : ∀ fields, s.fields = some fields → index.Exact fields) :
    (r.setStruct i s).FieldsExact (Function.update indexes i index) := by
  intro j fields hf
  by_cases hj : j = i
  · -- The struct has fields, so it is there and can be replaced.
    subst hj
    have hi : j < r.structs.length := by
      rw [← r.setStruct_length j s]
      exact lt_of_struct_fields _ j fields hf
    rw [r.struct_setStruct_self j s hi] at hf
    rw [Function.update_self]
    exact hs fields hf
  · rw [r.struct_setStruct_other i j s hj] at hf
    rw [Function.update_of_ne hj]
    exact he j fields hf

/-- Fields are assigned, and the index that was built for them is kept. -/
theorem setFields (he : r.FieldsExact indexes) (r' : Registry) (i : Nat) (fields : List Field)
    (index : FieldIndex) (hi : index.Exact fields) (h : r.setFields i fields = .ok r') :
    r'.FieldsExact (Function.update indexes i index) := by
  rcases (r.setFields_eq_ok_iff r' i fields).mp h with ⟨_, _, _, rfl⟩
  refine he.setStruct r indexes i _ index fun fields' hf => ?_
  rw [Option.some.injEq] at hf
  -- The stamp that the fields get has nothing to do with their names.
  refine hi.of_same index fields fields' ?_
  rw [← hf, List.map_map]
  rfl

/-- A field is renamed. Its live name stands in the index already. -/
theorem rename (he : r.FieldsExact indexes) (i place : Nat) (fields : List Field) (field : Field)
    (name : String) (scope : Scope) (names : Names) (hf : (r.struct i).fields = some fields)
    (hp : fields[place]? = some field)
    (h : field.names.rename name scope ((indexes i name).any (· ≠ place)) = .ok names) :
    (r.setStruct i { r.struct i with
        fields := some (fields.set place { field with names := names }) }).FieldsExact
      (if name = field.name then indexes
        else Function.update indexes i ((indexes i).insert name place)) := by
  have hi := he i fields hf
  have hstruct := he.setStruct r indexes i { r.struct i with
    fields := some (fields.set place { field with names := names }) } _ fun fields' hf' =>
      Option.some.inj hf' ▸ hi.rename (indexes i) fields place field name scope names hp h
  -- To enter the live name again changes nothing.
  by_cases hname : name = field.name
  · have hcarries : field.names.Carries name := by
      rw [hname]
      exact Names.carries_name
    rw [NameIndex.insert_of_eq_some _ _ _ ((hi name place).mpr ⟨field, hp, hcarries⟩),
      Function.update_eq_self] at hstruct
    rwa [if_pos hname]
  · rwa [if_neg hname]

/-- A field is documented, and the index stays. -/
theorem documentFieldAt (he : r.FieldsExact indexes) (i place : Nat) (doc : Option String) :
    (r.documentFieldAt i place doc).FieldsExact indexes := by
  have hstruct := he.setStruct r indexes i ((r.struct i).documentAt place doc) (indexes i) (by
    intro fields' hf'
    rw [StructType.documentAt, Option.map_eq_some_iff] at hf'
    rcases hf' with ⟨fields, hf, rfl⟩
    refine (he i fields hf).of_same (indexes i) fields _ ?_
    -- No field gets other names.
    refine List.ext_getElem (by simp only [List.length_map, List.length_modify]) fun k h₁ h₂ => ?_
    rw [List.getElem_map, List.getElem_map, List.getElem_modify]
    by_cases hk : place = k
    · rw [if_pos hk]
      rfl
    · rw [if_neg hk])
  rwa [Function.update_eq_self] at hstruct

theorem appendStruct (he : r.FieldsExact indexes) (s : StructType) (index : FieldIndex)
    (hs : ∀ fields, s.fields = some fields → index.Exact fields) :
    (r.appendStruct s).FieldsExact (Function.update indexes r.structs.length index) := by
  intro j fields hf
  rcases (r.holds_appendStruct_iff s (.struct j)).mp (lt_of_struct_fields _ j fields hf) with
    hold | hnew
  · have hj : j ≠ r.structs.length := Nat.ne_of_lt hold
    rw [r.struct_appendStruct_lt s j hold] at hf
    rw [Function.update_of_ne hj]
    exact he j fields hf
  · rw [Handle.struct.inj hnew] at hf ⊢
    rw [r.struct_appendStruct_length s] at hf
    rw [Function.update_self]
    exact hs fields hf

end FieldsExact

/-- The indexes that operations keep are exact. -/
theorem FieldsIndexed.exact (r : Registry) (indexes : Nat → FieldIndex)
    (h : FieldsIndexed r indexes) : r.FieldsExact indexes := by
  -- One case for each operation. Only those on fields change an index.
  induction h with
  | new token =>
      intro i fields hf
      exact absurd (lt_of_struct_fields _ i fields hf) (Nat.not_lt_zero i)
  | other r r' indexes _ hsame ih =>
      intro i fields hf
      rw [hsame i] at hf
      exact ih i fields hf
  | copy q r qs indexes j s _ _ hs ihq ihr =>
      refine ihr.appendStruct r indexes s (qs j) fun fields hf => ?_
      rw [hs] at hf
      exact ihq j fields hf
  | assign r r' indexes i fields index _ hi h ih =>
      exact ih.setFields r indexes r' i fields index (FieldIndex.exact_ofFields index fields hi) h
  | rename r indexes i place fields field name names _ hf hp h ih =>
      exact ih.rename r indexes i place fields field name _ names hf hp h
  | document r indexes i place doc _ ih => exact ih.documentFieldAt r indexes i place doc

/-! ### Registries that operations make -/

section

variable (r r' : Registry)

/-- To assign fields an index is built. -/
theorem exists_fieldsIndexed_setFields (h : ∃ indexes, FieldsIndexed r indexes) (i : Nat)
    (fields : List Field) (hset : r.setFields i fields = .ok r') :
    ∃ indexes, FieldsIndexed r' indexes := by
  rcases h with ⟨indexes, hr⟩
  have hd := ((r.setFields_eq_ok_iff r' i fields).mp hset).2.2.1
  rcases (FieldIndex.exists_ofFields_iff fields).mpr hd with ⟨index, hi⟩
  exact ⟨_, .assign r r' indexes i fields index hr hi hset⟩

/-- A struct without fields has nothing to be kept in an index. -/
theorem fieldsIndexed_appendStruct (indexes : Nat → FieldIndex) (hr : FieldsIndexed r indexes)
    (s : StructType) (hs : s.fields = none) : FieldsIndexed (r.appendStruct s) indexes := by
  refine .other r _ indexes hr fun i => ?_
  by_cases hi : i < r.structs.length
  · rw [r.struct_appendStruct_lt s i hi]
  · have hnone : ∀ fields, (r.struct i).fields ≠ some fields := fun fields hf =>
      hi (r.lt_of_struct_fields i fields hf)
    rw [Option.eq_none_iff_forall_ne_some.mpr hnone, Option.eq_none_iff_forall_ne_some]
    intro fields hf
    rcases (r.holds_appendStruct_iff s (.struct i)).mp (lt_of_struct_fields _ i fields hf) with
      hold | hnew
    · exact hi hold
    · rw [Handle.struct.inj hnew, r.struct_appendStruct_length s, hs] at hf
      exact nomatch hf

/-- The index is asked whether another field has the new name. -/
theorem exists_fieldsIndexed_renameFieldAt (h : ∃ indexes, FieldsIndexed r indexes) (i place : Nat)
    (name : String) (hrename : r.renameFieldAt i place name = .ok r') :
    ∃ indexes, FieldsIndexed r' indexes := by
  rcases h with ⟨indexes, hr⟩
  rcases renameFieldAt_eq_ok r r' i place name hrename with ⟨s, hs, rfl⟩
  rcases hf : (r.struct i).fields with _ | fields
  · simp only [StructType.renameAt, hf, Except.ok.injEq] at hs
    rw [← hs, r.setStruct_struct]
    exact ⟨indexes, hr⟩
  · rcases hp : fields[place]? with _ | field
    · simp only [StructType.renameAt, hf, hp, Except.ok.injEq] at hs
      rw [← hs, r.setStruct_struct]
      exact ⟨indexes, hr⟩
    · simp only [StructType.renameAt, hf, hp] at hs
      -- The index gives what a look at all the fields would give.
      rw [← (hr.exact r indexes i fields hf).eq_fieldIndex? (indexes i) fields] at hs
      rw [bind_eq_ok_iff] at hs
      rcases hs with ⟨names, hn, hs⟩
      rw [pure_eq_ok_iff] at hs
      rw [← hs]
      exact ⟨_, .rename r indexes i place fields field name names hr hf hp hn⟩

/-- Types are added, and fields assigned to those. -/
theorem Adds.exists_fieldsIndexed (h : ∃ indexes, FieldsIndexed r indexes) (ha : Adds r r') :
    ∃ indexes, FieldsIndexed r' indexes := by
  induction ha with
  | refl => exact h
  | struct r₁ s _ hs _ ih =>
      rcases ih with ⟨indexes, hr⟩
      exact ⟨indexes, r₁.fieldsIndexed_appendStruct indexes hr s hs⟩
  | enumeration r₁ e _ _ ih =>
      rcases ih with ⟨indexes, hr⟩
      exact ⟨indexes, .other r₁ _ indexes hr fun _ => rfl⟩
  | setFields r₁ r₂ i fields _ _ hset ih =>
      exact r₁.exists_fieldsIndexed_setFields r₂ ih i fields hset

end

/-- There are such indexes beside every registry there can be. -/
theorem Built.exists_fieldsIndexed (r : Registry) (h : Built r) :
    ∃ indexes, FieldsIndexed r indexes := by
  -- Every way to build a registry keeps some indexes beside it.
  induction h with
  | new token => exact ⟨_, .new token⟩
  | struct r r' s i _ hs h ih =>
      rcases ih with ⟨indexes, hr⟩
      rcases (r.registerStruct_eq_ok_iff r' s i).mp h with ⟨_, rfl, _⟩
      exact ⟨indexes, r.fieldsIndexed_appendStruct indexes hr s hs⟩
  | copy q r r' j s i _ _ hs h ihq ihr =>
      rcases ihq with ⟨qs, hq⟩
      rcases ihr with ⟨indexes, hr⟩
      rcases (r.registerStruct_eq_ok_iff r' s i).mp h with ⟨_, rfl, _⟩
      exact ⟨_, .copy q r qs indexes j s hq hr hs⟩
  | enumeration r r' e i _ h ih =>
      rcases ih with ⟨indexes, hr⟩
      rcases (r.registerEnum_eq_ok_iff r' e i).mp h with ⟨_, rfl, _⟩
      exact ⟨indexes, .other r _ indexes hr fun _ => rfl⟩
  | @setFields r _ i fields _ h ih => exact r.exists_fieldsIndexed_setFields _ ih i fields h
  | rename r r' handle name _ h ih =>
      rcases ih with ⟨indexes, hr⟩
      rcases (rename_eq_ok_iff r r' handle name).mp h with ⟨names, _, rfl⟩
      exact ⟨indexes, .other r _ indexes hr (fields_setNames r handle names)⟩
  | document r handle doc _ ih =>
      rcases ih with ⟨indexes, hr⟩
      exact ⟨indexes, .other r _ indexes hr (fields_document r handle doc)⟩
  | renameFieldAt r r' i position name _ h ih =>
      exact r.exists_fieldsIndexed_renameFieldAt r' ih i position name h
  | documentFieldAt r i position doc _ ih =>
      rcases ih with ⟨indexes, hr⟩
      exact ⟨indexes, .document r indexes i position doc hr⟩
  | imported r r' schema t _ h ih =>
      exact (adds_of_importSchema r r' schema t h).exists_fieldsIndexed r r' ih
  | refused r r' schema e _ h ih => exact importSchema_eq_error r r' schema e h ▸ ih

end Registry

end Schemata
