import Mathlib.Data.List.Forall2
import Mathlib.Data.List.Nodup
import Schemata.Proofs.Registry.Operations

/-!
# Edits in Place

What renaming and documenting leave of a registry.

An edit puts one struct or one enum in the place of another that differs from
it in a name or in a text. A renamed type carries its old names and the new
one, so names stay distinct if the new one was free. The same holds among the
fields of a struct, where places take the part of handles
(`fieldsDistinct_iff`).

## Main definitions

* `Registry.setNames`: A named type gets other names.
* `Registry.SameShape`: Two registries that differ only in what fields and
  types are called and said to be.

## Theorems

* `Names.rename_eq_ok_iff`: When a renaming succeeds, and what comes of it.
* `Registry.rename_eq_ok_iff`: The same for the types of a registry.
* `Registry.tidy_rename`, `Registry.tidy_renameFieldAt`: Names stay distinct.
* `Registry.tidy_document`, `Registry.tidy_documentFieldAt`: Documentation has
  nothing to do with names.
-/

namespace Schemata

/-! ### Names -/

namespace Names

theorem all_nodup (names : Names) : names.all.Nodup :=
  List.nodup_cons.mpr ⟨names.name_not_mem, names.aliases.sorted.imp fun h he =>
    absurd h (by rw [he]; exact String.lt_irrefl _)⟩

variable {names names' : Names} {name : String} {scope : Scope} {taken : Bool}

/-- A name is replaced by one that is an alias already or is free. -/
theorem rename_eq_ok_iff : names.rename name scope taken = .ok names' ↔
    (name = names.name ∧ names' = names) ∨
      (name ≠ names.name ∧ (name ∈ names.aliases ∨ taken = false) ∧ names'.name = name ∧
        names'.aliases = (names.aliases.erase name).insert names.name) := by
  unfold rename
  by_cases same : name = names.name
  · rw [dif_pos same, Except.ok.injEq]
    exact ⟨fun h => Or.inl ⟨same, h.symm⟩, fun h => h.elim (fun h => h.2.symm)
      fun h => absurd same h.1⟩
  · rw [dif_neg same]
    by_cases hc : name ∉ names.aliases ∧ taken = true
    · rw [if_pos hc]
      simp only [reduceCtorEq, false_iff, not_or, not_and]
      refine ⟨fun h => absurd h same, fun _ h => ?_⟩
      rcases h with h | h
      · exact absurd h hc.1
      · rw [hc.2] at h
        exact absurd h Bool.noConfusion
    · rw [if_neg hc, Except.ok.injEq]
      -- What is not refused is an alias of its own or free.
      have hfree : name ∈ names.aliases ∨ taken = false := by
        by_contra hn
        rw [not_or, Bool.not_eq_false] at hn
        exact hc hn
      constructor
      · rintro rfl
        exact Or.inr ⟨same, hfree, rfl, rfl⟩
      · rintro (h | ⟨_, _, hname, haliases⟩)
        · exact absurd h.1 same
        · cases names'
          simp only at hname haliases
          simp only [hname, haliases]

/-- A renamed thing carries its old names and the new one. -/
theorem carries_rename (h : names.rename name scope taken = .ok names') (x : String) :
    names'.Carries x ↔ names.Carries x ∨ x = name := by
  rcases rename_eq_ok_iff.mp h with ⟨hname, rfl⟩ | ⟨_, _, hn, ha⟩
  · rw [carries_iff, hname]
    exact ⟨Or.inl, fun h => h.elim id Or.inl⟩
  · rw [carries_iff, carries_iff, hn, ha, NameSet.mem_insert, NameSet.mem_erase]
    by_cases hx : x = name
    · simp only [hx, true_or, or_true]
    · simp only [hx, false_or, ne_eq, not_false_eq_true, and_true, or_false]

theorem name_of_rename (h : names.rename name scope taken = .ok names') : names'.name = name := by
  rcases rename_eq_ok_iff.mp h with ⟨hname, rfl⟩ | ⟨_, _, hn, _⟩
  · exact hname.symm
  · exact hn

/-- The new name was carried already, or it was not taken. -/
theorem free_of_rename (h : names.rename name scope taken = .ok names') :
    names.Carries name ∨ taken = false := by
  rcases rename_eq_ok_iff.mp h with ⟨hname, _⟩ | ⟨_, hfree, _⟩
  · exact Or.inl ((carries_iff _ _).mpr (Or.inl hname))
  · exact hfree.imp (fun h => (carries_iff _ _).mpr (Or.inr h)) id

end Names

/-! ### Fields -/

/-- No name is carried by fields of two places. -/
theorem fieldsDistinct_iff (fields : List Field) : FieldsDistinct fields ↔
    ∀ i j (hi : i < fields.length) (hj : j < fields.length) name,
      fields[i].names.Carries name → fields[j].names.Carries name → i = j := by
  unfold FieldsDistinct
  rw [List.nodup_flatMap, List.pairwise_iff_getElem]
  constructor
  · rintro ⟨_, hpair⟩ i j hi hj name hci hcj
    rcases Nat.lt_trichotomy i j with hlt | heq | hgt
    · exact absurd hcj (hpair i j hi hj hlt hci)
    · exact heq
    · exact absurd hci (hpair j i hj hi hgt hcj)
  · intro h
    refine ⟨fun field _ => field.names.all_nodup, fun i j hi hj hlt name hci hcj => ?_⟩
    exact absurd (h i j hi hj name hci hcj) (Nat.ne_of_lt hlt)

/-- A field is renamed to a name that no other field carries. -/
theorem fieldsDistinct_set (fields : List Field) (i : Nat) (hi : i < fields.length) (field : Field)
    (hd : FieldsDistinct fields)
    (hc : ∀ name, field.names.Carries name → fields[i].names.Carries name ∨
      ∀ j (hj : j < fields.length), fields[j].names.Carries name → j = i) :
    FieldsDistinct (fields.set i field) := by
  rw [fieldsDistinct_iff] at hd ⊢
  -- A name of the new field is carried by no field of another place.
  have hself : ∀ name, field.names.Carries name → ∀ j (hj : j < fields.length),
      fields[j].names.Carries name → j = i := by
    intro name hcarries j hj hcj
    rcases hc name hcarries with h | h
    · exact hd j i hj hi name hcj h
    · exact h j hj hcj
  intro j k hj hk name hcj hck
  rw [List.length_set] at hj hk
  rw [List.getElem_set] at hcj hck
  by_cases hji : i = j <;> by_cases hki : i = k
  · exact hji.symm.trans hki
  · rw [if_pos hji] at hcj
    rw [if_neg hki] at hck
    exact absurd (hself name hcj k hk hck).symm hki
  · rw [if_neg hji] at hcj
    rw [if_pos hki] at hck
    exact absurd (hself name hck j hj hcj).symm hji
  · rw [if_neg hji] at hcj
    rw [if_neg hki] at hck
    exact hd j k hj hk name hcj hck

namespace Registry

/-! ### Named types -/

/-- A named type gets other names. -/
def setNames (r : Registry) (h : Handle) (names : Names) : Registry :=
  match h with
  | .struct i => r.setStruct i { r.struct i with names := names }
  | .enumeration i => r.setEnum i { r.enumeration i with names := names }

section

variable (r r' : Registry) (h h' : Handle) (names : Names)

theorem setEnum_length (i : Nat) (e : EnumType) : (r.setEnum i e).enums.length = r.enums.length :=
  List.length_set

theorem enumeration_setEnum_self (i : Nat) (e : EnumType) (hi : i < r.enums.length) :
    (r.setEnum i e).enumeration i = e := by
  rw [enumeration_eq_getElem _ _ (by rw [setEnum_length]; exact hi)]
  exact List.getElem_set_self _

theorem enumeration_setEnum_other (i j : Nat) (e : EnumType) (hj : j ≠ i) :
    (r.setEnum i e).enumeration j = r.enumeration j := by
  simp only [enumeration, setEnum, List.getD_eq_getElem?_getD, List.getElem?_set_ne (Ne.symm hj)]

/-- Nothing is put where there is no enum. -/
theorem setEnum_eq_self (i : Nat) (e : EnumType) (hi : ¬ i < r.enums.length) :
    r.setEnum i e = r := by
  rw [setEnum, List.set_eq_of_length_le (Nat.le_of_not_lt hi)]

theorem holds_setEnum (i : Nat) (e : EnumType) : (r.setEnum i e).Holds h ↔ r.Holds h := by
  cases h with
  | struct j => exact Iff.rfl
  | enumeration j =>
      rw [Holds, setEnum_length]
      rfl

theorem namesOf_setEnum (i : Nat) (e : EnumType) (hn : e.names = (r.enumeration i).names) :
    (r.setEnum i e).namesOf h = r.namesOf h := by
  cases h with
  | struct j => rfl
  | enumeration j =>
      rw [namesOf, namesOf]
      by_cases hj : j = i
      · by_cases hi : i < r.enums.length
        · rw [hj, r.enumeration_setEnum_self i _ hi, hn]
        · rw [r.setEnum_eq_self i _ hi]
      · rw [r.enumeration_setEnum_other i j _ hj]

/-- To rename what there is not changes nothing. -/
theorem setNames_eq_self (hh : ¬ r.Holds h) : r.setNames h names = r := by
  cases h with
  | struct i => exact r.setStruct_eq_self i _ hh
  | enumeration i => exact r.setEnum_eq_self i _ hh

theorem holds_setNames : (r.setNames h names).Holds h' ↔ r.Holds h' := by
  cases h with
  | struct i => exact r.holds_setStruct i _ h'
  | enumeration i => exact r.holds_setEnum h' i _

theorem namesOf_setNames_self (hh : r.Holds h) : (r.setNames h names).namesOf h = names := by
  cases h with
  | struct i => rw [setNames, namesOf, r.struct_setStruct_self i _ hh]
  | enumeration i => rw [setNames, namesOf, r.enumeration_setEnum_self i _ hh]

theorem namesOf_setNames_other (hne : h' ≠ h) : (r.setNames h names).namesOf h' = r.namesOf h' := by
  cases h with
  | struct i =>
      cases h' with
      | struct j =>
          have hj : j ≠ i := fun he => hne (congrArg Handle.struct he)
          rw [setNames, namesOf, r.struct_setStruct_other i j _ hj, namesOf]
      | enumeration j => rfl
  | enumeration i =>
      cases h' with
      | struct j => rfl
      | enumeration j =>
          have hj : j ≠ i := fun he => hne (congrArg Handle.enumeration he)
          rw [setNames, namesOf, r.enumeration_setEnum_other i j _ hj, namesOf]

/-- The struct at a place keeps what an edit in its place does not touch. -/
theorem fields_setStruct (i j : Nat) (s : StructType) (hs : s.fields = (r.struct i).fields) :
    ((r.setStruct i s).struct j).fields = (r.struct j).fields := by
  by_cases hj : j = i
  · by_cases hi : i < r.structs.length
    · rw [hj, r.struct_setStruct_self i s hi, hs]
    · rw [r.setStruct_eq_self i s hi]
  · rw [r.struct_setStruct_other i j s hj]

theorem fields_setNames (i : Nat) :
    ((r.setNames h names).struct i).fields = (r.struct i).fields := by
  cases h with
  | struct j => exact r.fields_setStruct j i _ rfl
  | enumeration j => rfl

/-- A type is renamed to a name that it carries already or that is free. -/
theorem rename_eq_ok_iff (name : String) : r.rename h name = .ok r' ↔
    ∃ names, (r.namesOf h).rename name .types (r.takenElsewhere h name) = .ok names ∧
      r' = r.setNames h names := by
  unfold rename
  rcases hn : (r.namesOf h).rename name .types (r.takenElsewhere h name) with e | names
  · simp only [bind, Except.bind, reduceCtorEq, false_and, exists_false]
  · simp only [bind, Except.bind, pure, Except.pure, Except.ok.injEq]
    cases h with
    | struct i =>
        simp only [Except.ok.injEq, exists_eq_left', setNames]
        exact eq_comm
    | enumeration i =>
        simp only [Except.ok.injEq, exists_eq_left', setNames]
        exact eq_comm

/-- A name is taken if another type carries it. -/
theorem takenElsewhere_eq_false_iff (hd : r.Distinct) (name : String) :
    r.takenElsewhere h name = false ↔
      ∀ h', r.Holds h' → (r.namesOf h').Carries name → h' = h := by
  unfold takenElsewhere
  rcases hf : r.find? name with _ | found
  · rw [Option.any_none]
    simp only [true_iff]
    exact fun h' hh hc => absurd hc ((r.find?_eq_none_iff name).mp hf h' hh)
  · rw [Option.any_some, decide_eq_false_iff_not, not_not]
    rcases r.find?_sound name found hf with ⟨hh, hc⟩
    constructor
    · rintro rfl h' hh' hc'
      exact hd h' found name hh' hh hc' hc
    · exact fun hall => hall found hh hc

/-- A registry is as tidy as one with the same names and the same fields. -/
theorem tidy_of_same (hholds : ∀ h, r'.Holds h → r.Holds h)
    (hnames : ∀ h, r'.Holds h → r'.namesOf h = r.namesOf h)
    (hfields : ∀ i fields, (r'.struct i).fields = some fields → FieldsDistinct fields)
    (ht : r.Tidy) : r'.Tidy :=
  ⟨distinct_of_namesOf_eq r r' hholds hnames ht.distinct, hfields⟩

theorem tidy_rename (name : String) (hr : r.rename h name = .ok r') (ht : r.Tidy) : r'.Tidy := by
  rcases (rename_eq_ok_iff r r' h name).mp hr with ⟨names, hn, rfl⟩
  have hcarries := Names.carries_rename hn
  have hfree := Names.free_of_rename hn
  rw [takenElsewhere_eq_false_iff r h ht.distinct name] at hfree
  -- Whatever name the type carries now, no other type carries.
  have hself : ∀ x h', r.Holds h → names.Carries x → r.Holds h' → (r.namesOf h').Carries x →
      h' = h := by
    intro x h' hh hc hh' hc'
    rcases (hcarries x).mp hc with hold | rfl
    · exact ht.distinct h' h x hh' hh hc' hold
    · rcases hfree with hold | hnone
      · exact ht.distinct h' h x hh' hh hc' hold
      · exact hnone h' hh' hc'
  refine ⟨fun a b x ha hb hca hcb => ?_, fun i fields hf => ht.fields i fields (by
    rw [← hf, fields_setNames])⟩
  rw [holds_setNames] at ha hb
  by_cases hah : a = h <;> by_cases hbh : b = h
  · exact hah.trans hbh.symm
  · rw [hah] at ha hca
    rw [namesOf_setNames_self r h names ha] at hca
    rw [namesOf_setNames_other r h b names hbh] at hcb
    exact absurd (hself x b ha hca hb hcb) hbh
  · rw [hbh] at hb hcb
    rw [namesOf_setNames_self r h names hb] at hcb
    rw [namesOf_setNames_other r h a names hah] at hca
    exact absurd (hself x a hb hcb ha hca) hah
  · rw [namesOf_setNames_other r h a names hah] at hca
    rw [namesOf_setNames_other r h b names hbh] at hcb
    exact ht.distinct a b x ha hb hca hcb

theorem holds_document (doc : Option String) : (r.document h doc).Holds h' ↔ r.Holds h' := by
  cases h with
  | struct i => exact r.holds_setStruct i _ h'
  | enumeration i => exact r.holds_setEnum h' i _

theorem namesOf_document (doc : Option String) : (r.document h doc).namesOf h' = r.namesOf h' := by
  cases h with
  | struct i => exact r.namesOf_setStruct i _ h' rfl
  | enumeration i => exact r.namesOf_setEnum h' i _ rfl

theorem fields_document (doc : Option String) (i : Nat) :
    ((r.document h doc).struct i).fields = (r.struct i).fields := by
  cases h with
  | struct j => exact r.fields_setStruct j i _ rfl
  | enumeration j => rfl

theorem tidy_document (doc : Option String) (ht : r.Tidy) : (r.document h doc).Tidy :=
  tidy_of_same r _ (fun h' => (holds_document r h h' doc).mp)
    (fun h' _ => namesOf_document r h h' doc)
    (fun i fields hf => ht.fields i fields (by rw [← hf, fields_document])) ht

end

end Registry

/-! ### Fields of structs -/

/-- The two fields are used in the same way: they differ at most in names, documentation and
    owner. -/
def SameUse (a b : Field) : Prop :=
  b.cardinality = a.cardinality ∧ b.type = a.type ∧ b.default = a.default

theorem sameUse_refl (field : Field) : SameUse field field :=
  ⟨rfl, rfl, rfl⟩

theorem forall₂_sameUse_refl (fields : List Field) : List.Forall₂ SameUse fields fields :=
  List.forall₂_same.mpr fun field _ => sameUse_refl field

/-- One field is replaced by one that is used in the same way. -/
theorem forall₂_sameUse_set (fields : List Field) (i : Nat) (hi : i < fields.length) (field : Field)
    (hs : SameUse fields[i] field) : List.Forall₂ SameUse fields (fields.set i field) := by
  rw [List.forall₂_iff_get]
  refine ⟨List.length_set.symm, fun k h₁ h₂ => ?_⟩
  rw [List.get_eq_getElem, List.get_eq_getElem, List.getElem_set]
  by_cases hk : i = k
  · rw [if_pos hk]
    simp only [← hk]
    exact hs
  · rw [if_neg hk]
    exact sameUse_refl _

namespace StructType

variable (s s' : StructType) (i : Nat)

/-- Another field than that at the place carries the name. -/
theorem taken_eq_false_iff (fields : List Field) (hi : i < fields.length)
    (hd : FieldsDistinct fields) (name : String) :
    (fieldIndex? fields name).any (· ≠ i) = false ↔
      ∀ j (hj : j < fields.length), fields[j].names.Carries name → j = i := by
  rw [fieldsDistinct_iff] at hd
  -- The index finds the first field that carries the name, and names are distinct, so it is the
  -- only one.
  rcases hf : fieldIndex? fields name with _ | k
  · rw [fieldIndex?, List.findIdx?_eq_none_iff] at hf
    simp only [Option.any_none, true_iff]
    exact fun j hj hc => absurd hc (of_decide_eq_false (hf _ (List.getElem_mem hj)))
  · rw [fieldIndex?, List.findIdx?_eq_some_iff_getElem] at hf
    rcases hf with ⟨hk, hc, _⟩
    have hc' := of_decide_eq_true hc
    rw [Option.any_some, decide_eq_false_iff_not, not_not]
    constructor
    · rintro rfl j hj hcj
      exact hd j k hj hk name hcj hc'
    · exact fun hall => hall k hk hc'

/-- A field is renamed in its place. -/
theorem renameAt_eq_ok (name : String) (h : s.renameAt i name = .ok s') :
    s'.names = s.names ∧ s'.documentation = s.documentation ∧
      Option.Rel (List.Forall₂ SameUse) s.fields s'.fields ∧
      ((∀ fields ∈ s.fields, FieldsDistinct fields) →
        ∀ fields ∈ s'.fields, FieldsDistinct fields) := by
  have hrefl : Option.Rel (List.Forall₂ SameUse) s.fields s.fields := by
    rcases s.fields with _ | fields
    · exact .none
    · exact .some (forall₂_sameUse_refl fields)
  unfold renameAt at h
  rcases hs : s.fields with _ | fields
  · rw [hs] at h
    simp only [Except.ok.injEq] at h
    rw [← h]
    exact ⟨rfl, rfl, hs ▸ hrefl, fun hd => hs ▸ hd⟩
  · rw [hs] at h
    simp only [] at h
    rcases hfield : fields[i]? with _ | field
    · rw [hfield] at h
      simp only [Except.ok.injEq] at h
      rw [← h]
      exact ⟨rfl, rfl, hs ▸ hrefl, fun hd => hs ▸ hd⟩
    · rw [hfield] at h
      simp only [] at h
      rw [List.getElem?_eq_some_iff] at hfield
      rcases hfield with ⟨hi, rfl⟩
      rw [bind_eq_ok_iff] at h
      rcases h with ⟨names, hn, h⟩
      rw [pure_eq_ok_iff] at h
      rw [← h]
      refine ⟨rfl, rfl, .some (forall₂_sameUse_set fields i hi _ ⟨rfl, rfl, rfl⟩), ?_⟩
      intro hd fields' hf
      rw [Option.mem_def, Option.some.injEq] at hf
      rw [← hf]
      have hd' := hd fields rfl
      -- The new name was free, and all others were carried by the field before.
      have hfree := Names.free_of_rename hn
      rw [taken_eq_false_iff i fields hi hd' name] at hfree
      refine fieldsDistinct_set fields i hi _ hd' fun x hc => ?_
      rcases (Names.carries_rename hn x).mp hc with hold | rfl
      · exact Or.inl hold
      · exact hfree

theorem documentAt_fields (doc : Option String) :
    Option.Rel (List.Forall₂ SameUse) s.fields (s.documentAt i doc).fields := by
  unfold documentAt
  rcases s.fields with _ | fields
  · exact .none
  · refine .some (List.forall₂_iff_get.mpr ⟨(List.length_modify _ _ _).symm, fun k h₁ h₂ => ?_⟩)
    rw [List.get_eq_getElem, List.get_eq_getElem, List.getElem_modify]
    split
    · exact ⟨rfl, rfl, rfl⟩
    · exact sameUse_refl _

theorem documentAt_distinct (doc : Option String)
    (hd : ∀ fields ∈ s.fields, FieldsDistinct fields) :
    ∀ fields ∈ (s.documentAt i doc).fields, FieldsDistinct fields := by
  intro fields' hf
  unfold documentAt at hf
  rcases hs : s.fields with _ | fields
  · rw [hs] at hf
    exact nomatch hf
  · rw [hs, Option.map_some, Option.mem_def, Option.some.injEq] at hf
    have hd' := hd fields hs
    rw [FieldsDistinct, List.flatMap_def] at hd' ⊢
    -- The names of the fields are what they were.
    have hnames : fields'.map (·.names.all) = fields.map (·.names.all) := by
      rw [← hf]
      refine List.ext_getElem (by rw [List.length_map, List.length_map, List.length_modify])
        fun k h₁ h₂ => ?_
      rw [List.getElem_map, List.getElem_map, List.getElem_modify]
      split <;> rfl
    rw [hnames]
    exact hd'

end StructType

namespace Registry

/-- The second registry differs from the first at most in what types and fields are said to
    be, and in what fields are called. -/
structure SameShape (r r' : Registry) : Prop where
  holds : ∀ h, r'.Holds h ↔ r.Holds h
  names : ∀ h, r'.namesOf h = r.namesOf h
  fields : ∀ i, Option.Rel (List.Forall₂ SameUse) (r.struct i).fields (r'.struct i).fields

section

variable (r r' : Registry) (i : Nat)

/-- A struct is replaced by one of the same shape. -/
theorem sameShape_setStruct (s : StructType) (hn : s.names = (r.struct i).names)
    (hf : Option.Rel (List.Forall₂ SameUse) (r.struct i).fields s.fields) :
    SameShape r (r.setStruct i s) where
  holds := r.holds_setStruct i s
  names h := r.namesOf_setStruct i s h hn
  fields j := by
    have hrefl : ∀ s : StructType, Option.Rel (List.Forall₂ SameUse) s.fields s.fields := by
      intro s
      rcases s.fields with _ | fields
      · exact .none
      · exact .some (forall₂_sameUse_refl fields)
    -- Behind the end nothing is replaced, and other structs are as they were.
    by_cases hj : j = i
    · by_cases hi : i < r.structs.length
      · rw [hj, r.struct_setStruct_self i s hi]
        exact hf
      · rw [r.setStruct_eq_self i s hi]
        exact hrefl _
    · rw [r.struct_setStruct_other i j s hj]
      exact hrefl _

/-- A struct is replaced by one with the same names and with distinct fields. -/
theorem tidy_setStruct (s : StructType) (hn : s.names = (r.struct i).names)
    (hd : ∀ fields ∈ s.fields, FieldsDistinct fields) (ht : r.Tidy) : (r.setStruct i s).Tidy := by
  refine tidy_of_same r _ (fun h => (r.holds_setStruct i s h).mp)
    (fun h _ => r.namesOf_setStruct i s h hn) (fun j fields hf => ?_) ht
  by_cases hj : j = i
  · by_cases hi : i < r.structs.length
    · rw [hj, r.struct_setStruct_self i s hi] at hf
      exact hd fields hf
    · rw [r.setStruct_eq_self i s hi] at hf
      exact ht.fields j fields hf
  · rw [r.struct_setStruct_other i j s hj] at hf
    exact ht.fields j fields hf

theorem renameFieldAt_eq_ok (position : Nat) (name : String)
    (h : r.renameFieldAt i position name = .ok r') :
    ∃ s, (r.struct i).renameAt position name = .ok s ∧ r' = r.setStruct i s := by
  rw [renameFieldAt, bind_eq_ok_iff] at h
  rcases h with ⟨s, hs, h⟩
  rw [pure_eq_ok_iff] at h
  exact ⟨s, hs, h.symm⟩

theorem sameShape_renameFieldAt (position : Nat) (name : String)
    (h : r.renameFieldAt i position name = .ok r') : SameShape r r' := by
  rcases renameFieldAt_eq_ok r r' i position name h with ⟨s, hs, rfl⟩
  rcases StructType.renameAt_eq_ok _ s position name hs with ⟨hn, _, hf, _⟩
  exact sameShape_setStruct r i s hn hf

theorem tidy_renameFieldAt (position : Nat) (name : String)
    (h : r.renameFieldAt i position name = .ok r') (ht : r.Tidy) : r'.Tidy := by
  rcases renameFieldAt_eq_ok r r' i position name h with ⟨s, hs, rfl⟩
  rcases StructType.renameAt_eq_ok _ s position name hs with ⟨hn, _, _, hd⟩
  exact tidy_setStruct r i s hn (hd fun fields hf => ht.fields i fields hf) ht

theorem sameShape_documentFieldAt (position : Nat) (doc : Option String) :
    SameShape r (r.documentFieldAt i position doc) :=
  sameShape_setStruct r i _ rfl (StructType.documentAt_fields _ position doc)

theorem tidy_documentFieldAt (position : Nat) (doc : Option String) (ht : r.Tidy) :
    (r.documentFieldAt i position doc).Tidy :=
  tidy_setStruct r i _ rfl
    (StructType.documentAt_distinct _ position doc fun fields hf => ht.fields i fields hf) ht

theorem sameShape_document (h : Handle) (doc : Option String) : SameShape r (r.document h doc) where
  holds h' := holds_document r h h' doc
  names h' := namesOf_document r h h' doc
  fields j := by
    rw [fields_document]
    rcases (r.struct j).fields with _ | fields
    · exact .none
    · exact .some (forall₂_sameUse_refl fields)

end

end Registry

end Schemata
