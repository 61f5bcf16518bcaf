import Mathlib.Data.List.Sort
import Mathlib.Data.List.TakeWhile
import Schemata.Names

/-!
# Names in Full

How a name, its namespace and its aliases hang together, and when a set of
names survives being written down and read back.

A name in full is read as it stands wherever it stands, but an alias is not
written with a namespace of its own. It is read within the namespace of the
name it belongs to. An alias without a dot therefore belongs only to a name
without a dot: `Names.Fit` says that, and `Names.map_qualify_aliases` that
fitting aliases are read as they were.

## Main definitions

* `Names.Fit`: Aliases without a dot only beside a name without one.

## Theorems

* `NameSet.ofList_toList`: A set is the set of its members.
* `namespaceOf?_eq_none_iff`: A name without a dot has no namespace.
* `namespaceOf?_append`: A name within a namespace is in that namespace.
* `qualify_localName`: A name is made of its namespace and what stands behind.
* `Names.fit_of_qualified`: Aliases taken into the namespace of a name fit.
-/

namespace Schemata

namespace NameSet

theorem ext (a b : NameSet) (h : ∀ name, name ∈ a ↔ name ∈ b) : a = b := by
  have hlist : a.toList = b.toList := a.sorted.eq_of_mem_iff b.sorted h
  cases a
  cases b
  simp only at hlist
  simp only [hlist]

theorem ofList_toList (set : NameSet) : ofList set.toList = set :=
  ext _ _ fun _ => mem_ofList

end NameSet

/-! ### Dots -/

theorem hasDot_iff (name : String) : hasDot name = true ↔ '.' ∈ name.toList := by
  rw [hasDot, List.contains_iff_mem]

theorem hasDot_append (space name : String) : hasDot (space ++ "." ++ name) = true := by
  rw [hasDot_iff, String.toList_append, String.toList_append]
  exact List.mem_append_left _ (List.mem_append_right _ List.mem_cons_self)

-- What is left starts with the character that stopped the search.
theorem eq_dot_of_dropWhile (name : String) (c : Char) (front : List Char)
    (h : name.toList.reverse.dropWhile (· ≠ '.') = c :: front) : c = '.' := by
  have hhead := List.head?_dropWhile_not (fun c => decide (c ≠ '.')) name.toList.reverse
  rw [h] at hhead
  simpa only [List.head?_cons, ne_eq, decide_not, Bool.not_eq_eq_eq_not, Bool.not_false,
    decide_eq_true_eq] using hhead

theorem namespaceOf?_eq_none_iff (name : String) :
    namespaceOf? name = none ↔ hasDot name = false := by
  unfold namespaceOf?
  rw [← Bool.not_eq_true, hasDot_iff]
  rcases hd : name.toList.reverse.dropWhile (· ≠ '.') with _ | ⟨c, front⟩
  · simp only [true_iff]
    rw [List.dropWhile_eq_nil_iff] at hd
    intro hm
    exact absurd (hd '.' (List.mem_reverse.mpr hm)) (by decide)
  · simp only [reduceCtorEq, false_iff, not_not]
    rw [← List.mem_reverse, ← eq_dot_of_dropWhile name c front hd]
    exact (List.dropWhile_sublist _).mem (by rw [hd]; exact List.mem_cons_self)

theorem namespaceOf?_append (space name : String) (h : hasDot name = false) :
    namespaceOf? (space ++ "." ++ name) = some space := by
  have hnot : ∀ c ∈ name.toList.reverse, decide (c ≠ '.') = true := by
    intro c hc
    rw [decide_eq_true_eq]
    intro hdot
    rw [← Bool.not_eq_true, hasDot_iff, ← List.mem_reverse] at h
    exact h (hdot ▸ hc)
  unfold namespaceOf?
  simp only [String.toList_append, List.reverse_append, List.append_assoc]
  rw [List.dropWhile_append_of_pos hnot]
  simp only [show ".".toList = ['.'] from rfl, List.reverse_cons, List.reverse_nil, List.nil_append,
    List.cons_append, List.dropWhile_cons, ne_eq, not_true_eq_false, decide_false,
    Bool.false_eq_true, if_false, List.reverse_reverse, String.ofList_toList]

theorem qualify_of_hasDot (name : String) (space : Option String) (h : hasDot name = true) :
    qualify name space = name := by
  cases space with
  | none => rfl
  | some space => rw [qualify, if_pos h]

theorem hasDot_qualify (name space : String) : hasDot (qualify name (some space)) = true := by
  by_cases h : hasDot name = true
  · rwa [qualify_of_hasDot name _ h]
  · rw [qualify, if_neg h]
    exact hasDot_append space name

theorem hasDot_localName (name : String) : hasDot (localName name) = false := by
  rw [← Bool.not_eq_true, hasDot_iff, localName, String.toList_ofList, List.mem_reverse]
  intro hm
  have hne := List.mem_takeWhile_imp hm
  rw [decide_eq_true_eq] at hne
  exact hne rfl

/-- A name is made of what stands in front of the last dot and what stands behind it. -/
theorem qualify_localName (name : String) :
    qualify (localName name) (namespaceOf? name) = name := by
  have hsplit := List.takeWhile_append_dropWhile (p := (· ≠ '.')) (l := name.toList.reverse)
  unfold namespaceOf?
  rcases hd : name.toList.reverse.dropWhile (· ≠ '.') with _ | ⟨c, front⟩
  · rw [hd, List.append_nil] at hsplit
    rw [qualify, localName, hsplit, List.reverse_reverse, String.ofList_toList]
  · rw [hd, eq_dot_of_dropWhile name c front hd] at hsplit
    have hlist : name.toList = front.reverse ++ ['.'] ++ (localName name).toList := by
      rw [localName, String.toList_ofList, ← List.reverse_cons, ← List.reverse_append, hsplit,
        List.reverse_reverse]
    rw [qualify, if_neg (by rw [hasDot_localName]; exact Bool.false_ne_true), ← String.toList_inj,
      String.toList_append, String.toList_append, String.toList_ofList, hlist]
    rfl

/-! ### Aliases that fit -/

namespace Names

/-- A name with a dot has only aliases with a dot. -/
def Fit (names : Names) : Prop :=
  hasDot names.name = true → ∀ name ∈ names.aliases, hasDot name = true

theorem new_self (names : Names) : Names.new names.name names.aliases.toList = .ok names := by
  unfold new
  rw [dif_neg (by rw [NameSet.ofList_toList]; exact names.name_not_mem)]
  simp only [NameSet.ofList_toList]

theorem eq_of_new_eq_ok (name : String) (aliases : List String) (names : Names)
    (h : Names.new name aliases = .ok names) :
    names.name = name ∧ names.aliases = NameSet.ofList aliases := by
  unfold new at h
  by_cases hm : name ∈ NameSet.ofList aliases
  · rw [dif_pos hm] at h
    exact nomatch h
  · rw [dif_neg hm, Except.ok.injEq] at h
    rw [← h]
    exact ⟨rfl, rfl⟩

/-- Aliases that fit are read back as they were written. -/
theorem map_qualify_aliases (names : Names) (h : names.Fit) :
    names.aliases.toList.map (qualify · (namespaceOf? names.name)) = names.aliases.toList := by
  rcases hs : namespaceOf? names.name with _ | space
  · exact List.map_id' _
  · have hd : hasDot names.name = true := by
      by_contra hd
      rw [Bool.not_eq_true, ← namespaceOf?_eq_none_iff, hs] at hd
      exact nomatch hd
    conv_rhs => rw [← List.map_id' names.aliases.toList]
    exact List.map_congr_left fun name hm => qualify_of_hasDot name _ (h hd name hm)

/-- Aliases that were taken into the namespace of their name fit. -/
theorem fit_of_qualified (names : Names) (aliases : List String)
    (h : names.aliases = NameSet.ofList (aliases.map (qualify · (namespaceOf? names.name)))) :
    names.Fit := by
  intro hd name hm
  rcases hs : namespaceOf? names.name with _ | space
  · rw [namespaceOf?_eq_none_iff, hd] at hs
    exact nomatch hs
  · rw [h, NameSet.mem_ofList, List.mem_map] at hm
    rcases hm with ⟨written, _, rfl⟩
    rw [hs]
    exact hasDot_qualify written space

end Names

end Schemata
