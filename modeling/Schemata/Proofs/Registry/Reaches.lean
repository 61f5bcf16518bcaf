import Schemata.Proofs.Registry.Lookup

/-!
# Reachable Types

Which types a walk through the fields of a graph can come to.

A graph may have cycles, so what can be reached is a relation and not a list
that a recursion collects. It only ever looks at the fields of structs.
`Reaches.mono` is therefore all that is needed to carry a path from one
registry to another: whatever the second adds, the path is still there if no
struct on it lost its fields.

## Main definitions

* `Registry.Reaches`: A type is met on the way from another.
* `Registry.SameWays`: The fields of structs have the same types.

## Theorems

* `Registry.Reaches.trans`: Paths follow one another.
* `Registry.Reaches.core`: What is under the unparsed layers of a type is met.
* `Registry.Reaches.named`, `Registry.Reaches.fields`: What lies behind a type.
* `Registry.Reaches.closed`: A list that has the start and all parts has what
  can be reached.
* `Registry.Reaches.mono`: A path stays where fields keep their types.
-/

namespace Schemata

theorem Ty.core_ne_unparsed (s t : Ty) : s.core ≠ .unparsed t := by
  induction s with
  | unparsed s ih => exact ih
  | scalar _ | decimal _ | named _ => exact nofun

namespace Registry

/-- The type is met on the way from another through unparsed content and fields. -/
inductive Reaches (r : Registry) (root : Ty) : Ty → Prop
  | root : Reaches r root root
  | inner (t : Ty) (h : Reaches r root (.unparsed t)) : Reaches r root t
  | field (i : Nat) (fields : List Field) (field : Field) (h : Reaches r root (.named (.struct i)))
      (hf : (r.struct i).fields = some fields) (hm : field ∈ fields) : Reaches r root field.type

theorem Reaches.trans (r : Registry) {s t u : Ty} (hst : r.Reaches s t) (htu : r.Reaches t u) :
    r.Reaches s u := by
  induction htu with
  | root => exact hst
  | inner t _ ih => exact .inner t ih
  | field i fields field _ hf hm ih => exact .field i fields field ih hf hm

theorem Reaches.core (r : Registry) (root t : Ty) (h : r.Reaches root t) :
    r.Reaches root t.core := by
  induction t with
  | unparsed t ih => exact ih (.inner t h)
  | scalar _ | decimal _ | named _ => exact h

theorem Reaches.named (r : Registry) (root t : Ty) (h : Handle) (ht : t.core = .named h)
    (hr : r.Reaches root t) : r.Reaches root (.named h) :=
  ht ▸ hr.core

/-- The types of the fields of a struct can be reached where the struct can. -/
theorem Reaches.fields (r : Registry) (root : Ty) (i : Nat) (fields : List Field)
    (h : r.Reaches root (.named (.struct i))) (hf : (r.struct i).fields = some fields) :
    ∀ t ∈ fields.map Field.type, r.Reaches root t := by
  intro t ht
  rcases List.mem_map.mp ht with ⟨field, hm, rfl⟩
  exact .field i fields field h hf hm

/-- A single type can be reached from itself. -/
theorem Reaches.of_mem_singleton (r : Registry) (root : Ty) : ∀ t ∈ [root], r.Reaches root t := by
  intro t ht
  rw [List.mem_singleton.mp ht]
  exact .root

/-- A list of types that has the start, and the parts of all it has, has what can be reached. -/
theorem Reaches.closed (r : Registry) (root : Ty) (types : List Ty) (hroot : root ∈ types)
    (hinner : ∀ t, Ty.unparsed t ∈ types → t ∈ types)
    (hfields : ∀ i fields, Ty.named (.struct i) ∈ types → (r.struct i).fields = some fields →
      ∀ field ∈ fields, field.type ∈ types) (t : Ty) (h : r.Reaches root t) : t ∈ types := by
  induction h with
  | root => exact hroot
  | inner t _ ih => exact hinner t ih
  | field i fields field _ hf hm ih => exact hfields i fields ih hf field hm

/-- Wherever a struct of one registry has fields, that of the other has fields of the same
    types. -/
def SameWays (r r' : Registry) : Prop :=
  ∀ i fields, (r.struct i).fields = some fields →
    ∃ fields', (r'.struct i).fields = some fields' ∧
      fields'.map Field.type = fields.map Field.type

theorem Reaches.mono (r r' : Registry) (hw : SameWays r r') (s t : Ty) (h : r.Reaches s t) :
    r'.Reaches s t := by
  induction h with
  | root => exact .root
  | inner t _ ih => exact .inner t ih
  | field i fields field _ hf hm ih =>
      rcases hw i fields hf with ⟨fields', hf', htypes⟩
      have hmem : field.type ∈ fields'.map Field.type := by
        rw [htypes]
        exact List.mem_map_of_mem hm
      rcases List.mem_map.mp hmem with ⟨field', hm', he⟩
      rw [← he]
      exact .field i fields' field' ih hf' hm'

end Registry

end Schemata
