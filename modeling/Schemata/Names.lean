import Schemata.Error

/-!
# Names and Aliases

A type or a field has one live name and any number of aliases, the names it
had before or is also known by. Aliases are a set, kept sorted so that two
equal sets are one value, and the live name is never among them.

Renaming keeps the lineage: the old name becomes an alias, and an alias that
becomes the live name stops being one.

Names of types may be qualified: what stands in front of the last dot is the
namespace.

## Main definitions

* `NameSet`: A sorted list of distinct names.
* `Names`: A live name and aliases.
* `Names.new`, `Names.rename`: Making and renaming.
* `firstRepeated?`: The first name that occurs twice.
* `qualify`, `namespaceOf?`: Qualified names.

## Theorems

* `NameSet.mem_insert`, `NameSet.mem_erase`: Membership after each operation.
* `firstRepeated?_nil_eq_none_iff`: No name occurs twice in a list without duplicates.
-/

namespace Schemata

/-! ### Sorted sets of names -/

/-- Add a name to a sorted list, unless it is there. -/
def insertSorted (name : String) : List String → List String
  | [] => [name]
  | n :: rest =>
    if name < n then name :: n :: rest
    else if name = n then n :: rest
    else n :: insertSorted name rest

theorem mem_insertSorted {name x : String} {names : List String} :
    x ∈ insertSorted name names ↔ x = name ∨ x ∈ names := by
  induction names with
  | nil => simp [insertSorted]
  | cons n rest ih =>
    simp only [insertSorted]
    split
    · simp
    · split
      · next h => simp [h]
      · simp only [List.mem_cons, ih]
        exact or_left_comm

theorem pairwise_insertSorted {name : String} {names : List String}
    (h : names.Pairwise (· < ·)) : (insertSorted name names).Pairwise (· < ·) := by
  induction names with
  | nil => simp [insertSorted]
  | cons n rest ih =>
    have ⟨first, sorted⟩ := List.pairwise_cons.1 h
    simp only [insertSorted]
    split
    · next lt =>
      refine List.pairwise_cons.2 ⟨fun x hx => ?_, h⟩
      rcases List.mem_cons.1 hx with rfl | hx
      · exact lt
      · exact String.lt_trans lt (first x hx)
    · split
      · exact h
      · next ge ne =>
        refine List.pairwise_cons.2 ⟨fun x hx => ?_, ih sorted⟩
        rcases mem_insertSorted.1 hx with rfl | hx
        · exact (Std.lt_trichotomy n x).resolve_right
            (fun h => h.elim (fun h => ne h.symm) ge)
        · exact first x hx

/-- A set of names: a list without repetition, in order. -/
structure NameSet where
  toList : List String
  sorted : toList.Pairwise (· < ·)
  deriving DecidableEq, Repr

namespace NameSet

instance : Membership String NameSet :=
  ⟨fun set name => name ∈ set.toList⟩

instance (name : String) (set : NameSet) : Decidable (name ∈ set) :=
  inferInstanceAs (Decidable (name ∈ set.toList))

/-- The set without members. -/
def empty : NameSet :=
  ⟨[], .nil⟩

/-- The set with one more member. -/
def insert (name : String) (set : NameSet) : NameSet :=
  ⟨insertSorted name set.toList, pairwise_insertSorted set.sorted⟩

/-- The set without a member. -/
def erase (name : String) (set : NameSet) : NameSet :=
  ⟨set.toList.filter (· ≠ name), set.sorted.filter _⟩

/-- The set of the names of a list. -/
def ofList (names : List String) : NameSet :=
  names.foldr insert empty

theorem mem_toList {name : String} {set : NameSet} : name ∈ set.toList ↔ name ∈ set :=
  Iff.rfl

@[simp]
theorem not_mem_empty (name : String) : name ∉ empty :=
  List.not_mem_nil

@[simp]
theorem mem_insert {name x : String} {set : NameSet} :
    x ∈ set.insert name ↔ x = name ∨ x ∈ set :=
  mem_insertSorted

@[simp]
theorem mem_erase {name x : String} {set : NameSet} :
    x ∈ set.erase name ↔ x ∈ set ∧ x ≠ name := by
  simp only [← mem_toList, erase, List.mem_filter, decide_eq_true_eq]

@[simp]
theorem mem_ofList {x : String} {names : List String} : x ∈ ofList names ↔ x ∈ names := by
  induction names with
  | nil => simp [ofList]
  | cons n rest ih =>
    simp only [ofList, List.foldr_cons, mem_insert, List.mem_cons] at ih ⊢
    rw [ih]

end NameSet

/-! ### Live name and aliases -/

/-- A live name and its aliases. -/
structure Names where
  name : String
  aliases : NameSet
  name_not_mem : name ∉ aliases
  deriving DecidableEq, Repr

namespace Names

/-- A name without aliases. -/
def single (name : String) : Names :=
  ⟨name, .empty, NameSet.not_mem_empty name⟩

/-- A name and aliases; the name may not be one of them. -/
def new (name : String) (aliases : List String) : Except ConstructionFault Names :=
  if h : name ∈ NameSet.ofList aliases then .error (.nameIsAlias name)
  else .ok ⟨name, .ofList aliases, h⟩

/-- The live name, then the aliases in order. -/
def all (names : Names) : List String :=
  names.name :: names.aliases.toList

/-- The name is the live name or an alias. -/
def Carries (names : Names) (name : String) : Prop :=
  name ∈ names.all

instance (names : Names) (name : String) : Decidable (names.Carries name) :=
  inferInstanceAs (Decidable (name ∈ names.all))

/-- Make a name the live name, and the old one an alias. It may be one of the aliases; any
    other name must not be taken within the scope. -/
def rename (names : Names) (name : String) (scope : Scope) (taken : Bool) :
    Except SchemaError Names :=
  if same : name = names.name then .ok names
  else if name ∉ names.aliases ∧ taken then .error (.conflict name scope)
  else .ok ⟨name, (names.aliases.erase name).insert names.name, by simp [same]⟩

end Names

/-! ### Repetition -/

/-- The first name of a list that stood there, or among `seen`, before. -/
def firstRepeated? (seen : List String) : List String → Option String
  | [] => none
  | name :: rest => if name ∈ seen then some name else firstRepeated? (name :: seen) rest

theorem firstRepeated?_eq_none_iff {seen names : List String} :
    firstRepeated? seen names = none ↔ names.Nodup ∧ ∀ name ∈ names, name ∉ seen := by
  induction names generalizing seen with
  | nil => simp [firstRepeated?]
  | cons name rest ih =>
    by_cases h : name ∈ seen
    · simp [firstRepeated?, h]
    · simp only [firstRepeated?, h, if_false, ih, List.nodup_cons, List.mem_cons, not_or,
        forall_eq_or_imp, not_false_eq_true, true_and]
      constructor
      · exact fun ⟨nodup, fresh⟩ =>
          ⟨⟨fun mem => (fresh name mem).1 rfl, nodup⟩, fun x hx => (fresh x hx).2⟩
      · exact fun ⟨⟨notMem, nodup⟩, fresh⟩ =>
          ⟨nodup, fun x hx => ⟨fun eq => notMem (eq ▸ hx), fresh x hx⟩⟩

/-- A list has no repeated name exactly if it has no duplicates. -/
theorem firstRepeated?_nil_eq_none_iff {names : List String} :
    firstRepeated? [] names = none ↔ names.Nodup := by
  simp [firstRepeated?_eq_none_iff]

/-! ### Qualified names -/

/-- The name contains a dot. -/
def hasDot (name : String) : Bool :=
  name.toList.contains '.'

/-- What stands in front of the last dot, if there is a dot. -/
def namespaceOf? (name : String) : Option String :=
  match name.toList.reverse.dropWhile (· ≠ '.') with
  | [] => none
  | _ :: front => some (String.ofList front.reverse)

/-- What stands behind the last dot; all of it if there is no dot. -/
def localName (name : String) : String :=
  String.ofList (name.toList.reverse.takeWhile (· ≠ '.')).reverse

/-- The name within a namespace, unless it has a dot already. -/
def qualify (name : String) : Option String → String
  | some space => if hasDot name then name else space ++ "." ++ name
  | none => name

end Schemata
