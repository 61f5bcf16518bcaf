import Schemata.Proofs.Registry.Renaming

/-!
# Keeping an Index of Names

A lookup goes through all types. The alternative is an index that says for
each name which type carries it, and that every operation brings up to date:
a registration adds the names of its type, a renaming adds one name, and going
back to an earlier size drops the names of the types that go. Whether a name
may be used is then asked of the index alone.

An index of this kind can go wrong in two ways. It can still have a name that
no type carries any more, and it can lack one, or have it for another type.
`Indexed` is the index as operations keep it, in any order and any number, and
`Indexed.exact` says that neither happens: what stands in the index is what
the types carry, name by name and in both directions. So the index is the
lookup, and a check that asks the index comes out as one that asks the types.

Two points carry the proof. A registration only adds names that are free, so
nothing in the index is ever replaced by another type. And after going back
the next type takes the place of one that went, under the same handle; the
index may forget the types that went because it asks for the places of their
handles and not for their names.

## Main definitions

* `NameIndex`: What each name stands for.
* `Index`: The type that carries each name.
* `Index.add`, `Index.retain`: The names of one type more, the types that stay.
* `Index.Exact`: The index has what the types of a registry carry.
* `Registry.Indexed`: A registry and the index that operations keep beside it.

## Theorems

* `Index.Exact.eq_find?`: An exact index is the lookup.
* `Index.Exact.distinct`: Where there is an exact index, no name is carried by
  two types.
* `Index.Exact.add`, `Index.Exact.rename`, `Index.Exact.retain`: Each way to
  bring an index up to date leaves it exact.
* `Registry.Indexed.exact`: The index that operations keep is exact.
-/

namespace Schemata

/-- What each name stands for, if it stands for anything. -/
abbrev NameIndex (α : Type) :=
  String → Option α

namespace NameIndex

variable {α : Type}

/-- No name stands for anything. -/
def empty : NameIndex α :=
  fun _ => none

/-- Put something under a name, whatever stands there. -/
def insert (index : NameIndex α) (name : String) (a : α) : NameIndex α :=
  fun x => if x = name then some a else index x

theorem insert_of_eq_some (index : NameIndex α) (name : String) (a : α) (h : index name = some a) :
    index.insert name a = index := by
  funext x
  by_cases hx : x = name
  · rw [insert, if_pos hx, hx, h]
  · rw [insert, if_neg hx]

end NameIndex

/-- The type that carries each name. -/
abbrev Index :=
  NameIndex Handle

/-- The handle is one of those that there were at some moment. -/
def Checkpoint.has (c : Checkpoint) : Handle → Bool
  | .struct i => i < c.structs
  | .enumeration i => i < c.enums

namespace Index

/-- Put a type under all its names. -/
def add (index : Index) (names : Names) (h : Handle) : Index :=
  names.all.foldl (fun index name => index.insert name h) index

/-- Keep the types that there were at some moment. -/
def retain (index : Index) (c : Checkpoint) : Index :=
  fun name => (index name).filter c.has

/-- None of the names is in the index. -/
def Free (index : Index) (names : Names) : Prop :=
  ∀ name, names.Carries name → index name = none

/-- A type stands under a name exactly if it carries it. -/
def Exact (index : Index) (r : Registry) : Prop :=
  ∀ name h, index name = some h ↔ r.Holds h ∧ (r.namesOf h).Carries name

theorem foldl_insert_apply (index : Index) (list : List String) (h : Handle) (name : String) :
    list.foldl (fun index name => index.insert name h) index name
      = if name ∈ list then some h else index name := by
  induction list generalizing index with
  | nil => simp only [List.foldl_nil, List.not_mem_nil, if_false]
  | cons first rest ih =>
      rw [List.foldl_cons, ih]
      by_cases hr : name ∈ rest
      · rw [if_pos hr, if_pos (List.mem_cons_of_mem _ hr)]
      · rw [if_neg hr]
        -- The rest does not have the name, so it is decided here.
        by_cases hf : name = first
        · rw [NameIndex.insert, if_pos hf, if_pos (hf ▸ List.mem_cons_self)]
        · have hn : name ∉ first :: rest := by
            simp only [List.mem_cons, hf, hr, or_self, not_false_eq_true]
          rw [NameIndex.insert, if_neg hf, if_neg hn]

theorem add_apply (index : Index) (names : Names) (h : Handle) (name : String) :
    index.add names h name = if names.Carries name then some h else index name :=
  foldl_insert_apply index names.all h name

namespace Exact

variable (index : Index) (r r' : Registry)

/-- An exact index is the lookup. -/
theorem eq_find? (he : index.Exact r) : index = r.find? := by
  funext name
  cases hf : r.find? name with
  | none =>
      have hnone := (r.find?_eq_none_iff name).mp hf
      cases hi : index name with
      | none => rfl
      | some h =>
          have hboth := (he name h).mp hi
          exact absurd hboth.2 (hnone h hboth.1)
  | some h => exact (he name h).mpr (r.find?_sound name h hf)

/-- Where there is an exact index, no name is carried by two types. -/
theorem distinct (he : index.Exact r) : r.Distinct := by
  intro h h' name hh hh' hc hc'
  have hi : index name = some h := (he name h).mpr ⟨hh, hc⟩
  have hi' : index name = some h' := (he name h').mpr ⟨hh', hc'⟩
  rw [hi, Option.some.injEq] at hi'
  exact hi'

/-- Names are free in the index if no type carries them. -/
theorem free_iff (he : index.Exact r) (names : Names) : index.Free names ↔ r.Unused names := by
  rw [he.eq_find? index r]
  exact forall_congr' fun name => imp_congr_right fun _ => r.find?_eq_none_iff name

/-- An index stays exact where no type gets or loses a name. -/
theorem of_same (he : index.Exact r) (hh : ∀ h, r'.Holds h ↔ r.Holds h)
    (hn : ∀ h, r'.namesOf h = r.namesOf h) : index.Exact r' := by
  intro name h
  rw [he name h, hh h, hn h]

/-- One more type: its names are added. -/
theorem add (he : index.Exact r) (new : Handle) (hnew : ¬ r.Holds new)
    (hh : ∀ h, r'.Holds h ↔ r.Holds h ∨ h = new) (hn : ∀ h, r.Holds h → r'.namesOf h = r.namesOf h)
    (hf : index.Free (r'.namesOf new)) : (index.add (r'.namesOf new) new).Exact r' := by
  intro name h
  rw [add_apply]
  by_cases hc : (r'.namesOf new).Carries name
  · rw [if_pos hc, Option.some.injEq]
    constructor
    · rintro rfl
      exact ⟨(hh _).mpr (Or.inr rfl), hc⟩
    · rintro ⟨hholds, hcarries⟩
      rcases (hh h).mp hholds with hold | rfl
      · -- An older type with this name would stand in the index, but the name was free.
        rw [hn h hold] at hcarries
        have hsome := (he name h).mpr ⟨hold, hcarries⟩
        rw [hf name hc] at hsome
        exact nomatch hsome
      · rfl
  · rw [if_neg hc, he name h]
    constructor
    · rintro ⟨hholds, hcarries⟩
      exact ⟨(hh h).mpr (Or.inl hholds), by rw [hn h hholds]; exact hcarries⟩
    · rintro ⟨hholds, hcarries⟩
      rcases (hh h).mp hholds with hold | rfl
      · rw [hn h hold] at hcarries
        exact ⟨hold, hcarries⟩
      · exact absurd hcarries hc

theorem appendStruct (he : index.Exact r) (s : StructType) (hf : index.Free s.names) :
    (index.add s.names (.struct r.structs.length)).Exact (r.appendStruct s) := by
  have hnames : (r.appendStruct s).namesOf (.struct r.structs.length) = s.names := by
    rw [Registry.namesOf, r.struct_appendStruct_length s]
  have hadd := he.add index r (r.appendStruct s) (.struct r.structs.length) (Nat.lt_irrefl _)
    (r.holds_appendStruct_iff s) (r.namesOf_appendStruct s) (by rw [hnames]; exact hf)
  rwa [hnames] at hadd

theorem appendEnum (he : index.Exact r) (e : EnumType) (hf : index.Free e.names) :
    (index.add e.names (.enumeration r.enums.length)).Exact (r.appendEnum e) := by
  have hnames : (r.appendEnum e).namesOf (.enumeration r.enums.length) = e.names := by
    rw [Registry.namesOf, r.enumeration_appendEnum_length e]
  have hadd := he.add index r (r.appendEnum e) (.enumeration r.enums.length) (Nat.lt_irrefl _)
    (r.holds_appendEnum_iff e) (r.namesOf_appendEnum e) (by rw [hnames]; exact hf)
  rwa [hnames] at hadd

/-- A type is renamed: the new name is added, and the old one stays as an alias. -/
theorem rename (he : index.Exact r) (handle : Handle) (name : String) (names : Names)
    (hh : r.Holds handle)
    (hn : (r.namesOf handle).rename name .types ((index name).any (· ≠ handle)) = .ok names) :
    Index.Exact (index.insert name handle) (r.setNames handle names) := by
  have hcarries := Names.carries_rename hn
  -- Until now the name stood for this type or for none.
  have hfree : ∀ h, r.Holds h → (r.namesOf h).Carries name → h = handle := by
    intro h hold hc
    rcases Names.free_of_rename hn with hown | htaken
    · exact he.distinct index r h handle name hold hh hc hown
    · rw [(he name h).mpr ⟨hold, hc⟩, Option.any_some, decide_eq_false_iff_not, not_not] at htaken
      exact htaken
  intro x h
  rw [r.holds_setNames handle h names, NameIndex.insert]
  by_cases hx : x = name
  · rw [if_pos hx, Option.some.injEq, hx]
    constructor
    · rintro rfl
      rw [r.namesOf_setNames_self handle names hh]
      exact ⟨hh, (hcarries name).mpr (Or.inr rfl)⟩
    · rintro ⟨hold, hc⟩
      by_contra hne
      rw [r.namesOf_setNames_other handle h names (Ne.symm hne)] at hc
      exact hne (hfree h hold hc).symm
  · rw [if_neg hx, he x h]
    by_cases hself : h = handle
    · -- Apart from the new name the type carries what it carried before.
      rw [hself, r.namesOf_setNames_self handle names hh, hcarries x]
      simp only [hx, or_false]
    · rw [r.namesOf_setNames_other handle h names hself]

theorem retain (he : index.Exact r) (c : Checkpoint) :
    (index.retain c).Exact (r.rollback c) := by
  -- The types that stay are those that the handles of the index are asked for.
  have hholds : ∀ h, (r.rollback c).Holds h ↔ r.Holds h ∧ c.has h = true := by
    intro h
    cases h with
    | struct i =>
        simp only [Registry.Holds, Registry.rollback, List.length_take, Checkpoint.has,
          decide_eq_true_eq]
        omega
    | enumeration i =>
        simp only [Registry.Holds, Registry.rollback, List.length_take, Checkpoint.has,
          decide_eq_true_eq]
        omega
  have hnames : ∀ h, c.has h = true → (r.rollback c).namesOf h = r.namesOf h := by
    intro h hc
    cases h with
    | struct i =>
        simp only [Checkpoint.has, decide_eq_true_eq] at hc
        simp only [Registry.namesOf, Registry.struct, Registry.rollback,
          List.getD_eq_getElem?_getD, List.getElem?_take_of_lt hc]
    | enumeration i =>
        simp only [Checkpoint.has, decide_eq_true_eq] at hc
        simp only [Registry.namesOf, Registry.enumeration, Registry.rollback,
          List.getD_eq_getElem?_getD, List.getElem?_take_of_lt hc]
  intro name h
  rw [Index.retain, Option.filter_eq_some_iff, he name h, hholds h]
  constructor
  · rintro ⟨⟨hh, hc⟩, hstays⟩
    exact ⟨⟨hh, hstays⟩, by rw [hnames h hstays]; exact hc⟩
  · rintro ⟨⟨hh, hstays⟩, hc⟩
    rw [hnames h hstays] at hc
    exact ⟨⟨hh, hc⟩, hstays⟩

end Exact

end Index

namespace Registry

/-- A registry, and the index of its names that operations keep beside it. What an operation
    needs to know about names it asks of the index. -/
inductive Indexed : Registry → Index → Prop
  | new (token : Nat) : Indexed (.new token) .empty
  | struct (r : Registry) (index : Index) (s : StructType) (hr : Indexed r index)
      (hf : index.Free s.names) :
      Indexed (r.appendStruct s) (index.add s.names (.struct r.structs.length))
  | enumeration (r : Registry) (index : Index) (e : EnumType) (hr : Indexed r index)
      (hf : index.Free e.names) :
      Indexed (r.appendEnum e) (index.add e.names (.enumeration r.enums.length))
  | setFields (r r' : Registry) (index : Index) (i : Nat) (fields : List Field)
      (hr : Indexed r index) (h : r.setFields i fields = .ok r') : Indexed r' index
  | rename (r : Registry) (index : Index) (handle : Handle) (name : String) (names : Names)
      (hr : Indexed r index) (hh : r.Holds handle)
      (h : (r.namesOf handle).rename name .types ((index name).any (· ≠ handle)) = .ok names) :
      Indexed (r.setNames handle names)
        (if name = r.nameOf handle then index else index.insert name handle)
  | document (r : Registry) (index : Index) (handle : Handle) (doc : Option String)
      (hr : Indexed r index) : Indexed (r.document handle doc) index
  | renameFieldAt (r r' : Registry) (index : Index) (i position : Nat) (name : String)
      (hr : Indexed r index) (h : r.renameFieldAt i position name = .ok r') : Indexed r' index
  | documentFieldAt (r : Registry) (index : Index) (i position : Nat) (doc : Option String)
      (hr : Indexed r index) : Indexed (r.documentFieldAt i position doc) index
  | rollback (r : Registry) (index : Index) (c : Checkpoint) (hr : Indexed r index) :
      Indexed (r.rollback c) (index.retain c)

/-- The index that operations keep is exact. -/
theorem Indexed.exact (r : Registry) (index : Index) (h : Indexed r index) : index.Exact r := by
  induction h with
  | new token =>
      intro name h
      have hnone : ¬ (Registry.new token).Holds h := by
        cases h <;> exact Nat.not_lt_zero _
      simp only [NameIndex.empty, hnone, reduceCtorEq, false_and]
  | struct r index s _ hf ih => exact ih.appendStruct index r s hf
  | enumeration r index e _ hf ih => exact ih.appendEnum index r e hf
  | setFields r r' index i fields _ h ih =>
      rcases (r.setFields_eq_ok_iff r' i fields).mp h with ⟨_, _, _, rfl⟩
      exact ih.of_same index r _ (r.holds_setStruct i _) fun h => r.namesOf_setStruct i _ h rfl
  | rename r index handle name names _ hh h ih =>
      have hrename := ih.rename index r handle name names hh h
      by_cases hn : name = r.nameOf handle
      · -- Nothing is put anywhere, and nothing would have to be.
        have hcarries : (r.namesOf handle).Carries name := hn ▸ Names.carries_name
        rw [NameIndex.insert_of_eq_some index name handle
          ((ih name handle).mpr ⟨hh, hcarries⟩)] at hrename
        rw [if_pos hn]
        exact hrename
      · rw [if_neg hn]
        exact hrename
  | document r index handle doc _ ih =>
      have hs := sameShape_document r handle doc
      exact ih.of_same index r _ hs.holds hs.names
  | renameFieldAt r r' index i position name _ h ih =>
      have hs := sameShape_renameFieldAt r r' i position name h
      exact ih.of_same index r _ hs.holds hs.names
  | documentFieldAt r index i position doc _ ih =>
      have hs := sameShape_documentFieldAt r i position doc
      exact ih.of_same index r _ hs.holds hs.names
  | rollback r index c _ ih => exact ih.retain index r c

end Registry

end Schemata
