import Mathlib.Data.List.Nodup
import Mathlib.Tactic.Tauto
import Schemata.Entries

/-!
# What Stands Under a Key

What a value that was put under a key changes: the lookup of this key and no
other. A key that is there already keeps its place, so to put a value twice is to
put the second one, and to put what is there changes nothing.

## Theorems

* `Entries.lookup_put`: What stands under a key after a value was put there.
* `Entries.put_put`, `Entries.put_of_lookup`: Values put twice, or put where they are.
* `Entries.mem_keys_put`, `Entries.nodup_keys_put`: The keys afterwards.
* `Entries.mem_put`: There is nothing but the new value and the old ones.
-/

namespace Schemata

namespace Entries

variable {α : Type} (key other : String) (value : α) (entries : List (String × α))

theorem lookup_cons : List.lookup other ((key, value) :: entries) =
    if other = key then some value else entries.lookup other := by
  by_cases h : other = key
  · rw [if_pos h, h, List.lookup_cons_self]
  · rw [if_neg h, List.lookup_cons, beq_eq_false_iff_ne.mpr h]

theorem lookup_put : (put key value entries).lookup other =
    if other = key then some value else entries.lookup other := by
  -- On the entries, of which the first with the key is replaced.
  induction entries with
  | nil => exact lookup_cons key other value []
  | cons entry rest ih =>
      rcases entry with ⟨k, v⟩
      rw [put]
      split
      · next hk =>
          rw [lookup_cons, lookup_cons, hk]
          split_ifs
          · rfl
          · rfl
      · next hk =>
          rw [lookup_cons, lookup_cons, ih]
          split_ifs with hother hkey
          · exact absurd (hother.symm.trans hkey) hk
          · rfl
          · rfl
          · rfl

theorem put_put (value' : α) : put key value' (put key value entries) = put key value' entries := by
  induction entries with
  | nil => simp only [put, if_true]
  | cons entry rest ih =>
      rcases entry with ⟨k, v⟩
      rw [put, put]
      by_cases hk : k = key
      · rw [if_pos hk, if_pos hk, put, if_pos hk]
      · rw [if_neg hk, if_neg hk, put, if_neg hk, ih]

/-- To put in place what is there changes nothing. -/
theorem put_of_lookup (h : entries.lookup key = some value) : put key value entries = entries := by
  induction entries with
  | nil => nomatch h
  | cons entry rest ih =>
      rcases entry with ⟨k, v⟩
      rw [lookup_cons] at h
      rw [put]
      by_cases hk : k = key
      · rw [if_pos hk.symm, Option.some.injEq] at h
        rw [if_pos hk, h]
      · rw [if_neg (Ne.symm hk)] at h
        rw [if_neg hk, ih h]

theorem mem_keys_put : other ∈ (put key value entries).map Prod.fst ↔
    other = key ∨ other ∈ entries.map Prod.fst := by
  induction entries with
  | nil =>
      simp only [put, List.map_cons, List.map_nil, List.mem_singleton, List.not_mem_nil, or_false]
  | cons entry rest ih =>
      rcases entry with ⟨k, v⟩
      rw [put]
      split
      · next hk => simp only [hk, List.map_cons, List.mem_cons, or_self_left]
      · simp only [List.map_cons, List.mem_cons, ih]
        tauto

theorem nodup_keys_put (h : (entries.map Prod.fst).Nodup) :
    ((put key value entries).map Prod.fst).Nodup := by
  induction entries with
  | nil => exact List.nodup_singleton key
  | cons entry rest ih =>
      rcases entry with ⟨k, v⟩
      rw [List.map_cons, List.nodup_cons] at h
      rw [put]
      split
      · exact List.nodup_cons.mpr h
      · next hk =>
          -- The key of the entry in front is another one, and what is behind it has it no
          -- oftener than before.
          refine List.nodup_cons.mpr ⟨?_, ih h.2⟩
          rw [mem_keys_put, not_or]
          exact ⟨hk, h.1⟩

theorem mem_put {entry : String × α} (h : entry ∈ put key value entries) :
    entry = (key, value) ∨ entry ∈ entries := by
  induction entries with
  | nil => exact Or.inl (List.mem_singleton.mp h)
  | cons first rest ih =>
      rcases first with ⟨k, v⟩
      rw [put] at h
      split at h
      · next hk =>
          rcases List.mem_cons.mp h with rfl | h
          · exact Or.inl (Prod.ext hk rfl)
          · exact Or.inr (List.mem_cons_of_mem _ h)
      · rcases List.mem_cons.mp h with rfl | h
        · exact Or.inr List.mem_cons_self
        · exact (ih h).imp_right (List.mem_cons_of_mem _)

end Entries

end Schemata
