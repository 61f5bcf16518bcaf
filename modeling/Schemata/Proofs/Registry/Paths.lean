import Schemata.Editing
import Schemata.Proofs.Registry.Reaches

/-!
# Paths of Fields

Where a path leads.

A path goes from struct to struct, by fields whose types are structs, and its
last name is that of a field in the struct where it has come to. So a lookup by
path succeeds exactly if all the lookups on its way do, and each of these is a
lookup in one struct. What is known of those can thus be carried along a path by
induction on its names (`Registry.walk_cons_eq_ok_iff`).

A path that fails does so at the first field that is missing or holds no struct,
whatever comes behind it (`Registry.walk_append`,
`Registry.walk_cons_of_other`).

## Theorems

* `Registry.walk_cons_eq_ok_iff`, `Registry.walk_append`: One name, and many.
* `Registry.locate_eq_ok_iff`, `Registry.resolve_eq_ok_iff`,
  `Registry.resolveNamed_eq_ok_iff`: What is at the end of a path.
* `Registry.reaches_of_resolveNamed`: A path leads to what can be reached.
-/

namespace Schemata

namespace Registry

section

variable (r : Registry) (path : FieldPath)

/-! ### The end of a path -/

/-- A path is gone by fields that hold structs. -/
theorem walk_cons_eq_ok_iff (i j : Nat) (segment : String) (rest : List String) :
    r.walk path i (segment :: rest) = .ok j ↔
      ∃ field next, (r.struct i).getField segment = .ok field ∧
        field.type = .named (.struct next) ∧ r.walk path next rest = .ok j := by
  rw [walk, bind_eq_ok_iff]
  constructor
  · rintro ⟨field, hf, hw⟩
    split at hw
    · next next ht => exact ⟨field, next, hf, ht, hw⟩
    · exact nomatch hw
  · rintro ⟨field, next, hf, ht, hw⟩
    refine ⟨field, hf, ?_⟩
    rw [ht]
    exact hw

/-- A walk goes on from where its first part has come to. -/
theorem walk_append (i j : Nat) (front back : List String) (h : r.walk path i front = .ok j) :
    r.walk path i (front ++ back) = r.walk path j back := by
  induction front generalizing i with
  | nil =>
      rw [walk, Except.ok.injEq] at h
      rw [h, List.nil_append]
  | cons segment rest ih =>
      rcases (r.walk_cons_eq_ok_iff path i j segment rest).mp h with ⟨field, next, hf, ht, hw⟩
      rw [List.cons_append, walk, hf, ← ih next hw]
      simp only [bind, Except.bind, ht]

/-- Behind a field that holds no struct a walk does not go on. -/
theorem walk_cons_of_other (i : Nat) (segment : String) (rest : List String) (field : Field)
    (hf : (r.struct i).getField segment = .ok field)
    (ht : ∀ next, field.type ≠ .named (.struct next)) :
    r.walk path i (segment :: rest) = .error (.state (.notAStruct segment path.text)) := by
  rw [walk, hf]
  -- The field is of no type by which the walk could go on.
  simp only [bind, Except.bind]

/-- The last name of a path is that of a field in the struct to which the others lead. -/
theorem locate_eq_ok_iff (root : Nat) (address : FieldAddress) :
    r.locate root path = .ok address ↔ ∃ last, path.segments.getLast? = some last ∧
      r.walk path root path.segments.dropLast = .ok address.struct ∧
      (r.struct address.struct).position last = .ok address.position := by
  unfold locate
  rcases path.segments.getLast? with _ | last
  · simp only [reduceCtorEq, false_and, exists_false]
  · simp only [bind_eq_ok_iff, pure_eq_ok_iff, Option.some.injEq, exists_eq_left']
    constructor
    · rintro ⟨i, hw, place, hp, rfl⟩
      exact ⟨hw, hp⟩
    · exact fun ⟨hw, hp⟩ => ⟨_, hw, _, hp, rfl⟩

theorem resolveNamed_eq_ok_iff (root : Nat) (handle : Handle) :
    r.resolveNamed root path = .ok handle ↔ r.resolve root path = .ok (.named handle) := by
  unfold resolveNamed
  rw [bind_eq_ok_iff]
  constructor
  · rintro ⟨t, ht, h⟩
    split at h
    · next found =>
        rw [pure_eq_ok_iff] at h
        rw [ht, h]
    · exact nomatch h
  · exact fun h => ⟨_, h, rfl⟩

/-- The type at the end of a path is that of the root struct or of the field there. -/
theorem resolve_eq_ok_iff (root : Nat) (t : Ty) :
    r.resolve root path = .ok t ↔ (path.isRoot = true ∧ t = .named (.struct root)) ∨
      (path.isRoot = false ∧ ∃ address field, r.locate root path = .ok address ∧
        r.fieldAt? address = some field ∧ field.type = t) := by
  unfold resolve
  rcases path.isRoot
  · simp only [Bool.false_eq_true, if_false, false_and, false_or, true_and, bind_eq_ok_iff]
    refine exists_congr fun address => ?_
    rcases r.fieldAt? address with _ | field
    · simp only [reduceCtorEq, and_false, false_and, exists_false]
    · simp only [pure_eq_ok_iff, Option.some.injEq, exists_and_left, exists_eq_left']
  · simp only [if_true, Except.ok.injEq, true_and, Bool.true_eq_false, false_and, or_false]
    exact eq_comm

/-! ### What a path leads to -/

theorem mem_of_getField (s : StructType) (name : String) (field : Field)
    (h : s.getField name = .ok field) : ∃ fields, s.fields = some fields ∧ field ∈ fields := by
  unfold StructType.getField at h
  rcases hs : s.fields with _ | fields
  · rw [hs] at h
    exact nomatch h
  · rw [hs] at h
    rcases hfind : fields.find? (·.names.Carries name) with _ | found
    · simp only [hfind, reduceCtorEq] at h
    · simp only [hfind, Except.ok.injEq] at h
      exact ⟨fields, rfl, h ▸ List.mem_of_find?_eq_some hfind⟩

/-- Each segment of a path leads from a struct to a struct among the types of its fields. -/
theorem reaches_of_walk (i j : Nat) (segments : List String)
    (h : r.walk path i segments = .ok j) : r.Reaches (.named (.struct i)) (.named (.struct j)) := by
  induction segments generalizing i with
  | nil =>
      rw [walk, Except.ok.injEq] at h
      rw [h]
      exact .root
  | cons segment rest ih =>
      rcases (r.walk_cons_eq_ok_iff path i j segment rest).mp h with ⟨field, next, hget, ht, hw⟩
      rcases mem_of_getField _ segment field hget with ⟨fields, hf, hm⟩
      have hstep := Reaches.field i fields field (.root (r := r)) hf hm
      rw [ht] at hstep
      exact hstep.trans _ (ih next hw)

/-- The type at the end of a path can be reached from its start. -/
theorem reaches_of_resolve (root : Nat) (t : Ty) (h : r.resolve root path = .ok t) :
    r.Reaches (.named (.struct root)) t := by
  rcases (r.resolve_eq_ok_iff path root t).mp h with
    ⟨_, rfl⟩ | ⟨_, address, field, hlocate, hfield, rfl⟩
  · exact .root
  · rcases (r.locate_eq_ok_iff path root address).mp hlocate with ⟨_, _, hwalk, _⟩
    rw [fieldAt?, Option.bind_eq_some_iff] at hfield
    rcases hfield with ⟨fields, hf, hm⟩
    have hreach := r.reaches_of_walk path root address.struct _ hwalk
    exact .field address.struct fields field hreach hf (List.mem_of_getElem? hm)

/-- A path leads to a type that can be reached from its start. -/
theorem reaches_of_resolveNamed (root : Nat) (h : Handle) (hr : r.resolveNamed root path = .ok h) :
    r.Reaches (.named (.struct root)) (.named h) :=
  r.reaches_of_resolve path root _ ((r.resolveNamed_eq_ok_iff path root h).mp hr)

end

end Registry

end Schemata
