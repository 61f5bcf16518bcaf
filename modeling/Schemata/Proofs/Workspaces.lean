import Schemata.Proofs.Runs
import Schemata.Proofs.Entries
import Schemata.Workspace

/-!
# Registries Under Labels

What the operations of a workspace do to the registries in it.

Each of them is about one label, or two, and the registries under all other
labels stay. A label that is not in use gets a new registry first. Apart from
that, an edit that fails leaves the workspace as it was, down to its loose fields
and outlines, for `Working.update` puts nothing in place before the edit is known
to have succeeded.

## Theorems

* `Workspace.lookup_put`, `Workspace.lookup_create`, `Workspace.lookup_visit`: The
  registries under the labels after one was put there.
* `Working.update_eq`, `Working.inside_eq`, `Working.copy_eq`: What the operations
  come to.
* `Working.update_of_error`: An edit that fails leaves all as it was.
-/

namespace Schemata

/-! ### Operations -/

section

variable (w : Workspace) (label other : String) (r r' : Registry)

namespace Workspace

theorem lookup_put : (w.put label r).registries.lookup other
    = if other = label then some r else w.registries.lookup other :=
  Entries.lookup_put label other r w.registries

theorem lookup_create : (w.create label).registries.lookup other
    = if other = label then some (.new w.nextToken) else w.registries.lookup other :=
  w.lookup_put label other (.new w.nextToken)

/-- A label in use stands for its registry, and nothing happens. -/
theorem visit_of_lookup (h : w.registries.lookup label = some r) : w.visit label = (w, r) := by
  rw [visit, h]

theorem lookup_visit :
    (w.visit label).1.registries.lookup label = some (w.visit label).2 := by
  rcases h : w.registries.lookup label with _ | r
  · rw [visit, h, lookup_create, if_pos rfl]
  · rw [w.visit_of_lookup label r h, h]

theorem put_put : (w.put label r).put label r' = w.put label r' := by
  rw [put, put, put, Entries.put_put]

theorem put_of_lookup (h : w.registries.lookup label = some r) : w.put label r = w := by
  rw [put, Entries.put_of_lookup label r _ h]

end Workspace

namespace Working

/-- A label that is not in use gets a registry first. -/
theorem registry_eq : registry label w = .ok (w.visit label).2 (w.visit label).1 :=
  rfl

/-- An edit that succeeds is put in place. -/
theorem update_eq (edit : Registry → Except SchemaError Registry) :
    update label edit w = match edit (w.visit label).2 with
      | .ok r => .ok () ((w.visit label).1.put label r)
      | .error e => .error e (w.visit label).1 := by
  rw [update, run_bind_of_ok (registry_eq w label)]
  cases edit (w.visit label).2 <;> rfl

theorem update_eq_ok_iff (w' : Workspace) (edit : Registry → Except SchemaError Registry) :
    update label edit w = .ok () w' ↔
      ∃ r, edit (w.visit label).2 = .ok r ∧ w' = (w.visit label).1.put label r := by
  rw [update_eq]
  cases edit (w.visit label).2 with
  | ok r =>
      simp only [EStateM.Result.ok.injEq, true_and, Except.ok.injEq, exists_eq_left', eq_comm]
  | error e => exact iff_of_false nofun fun ⟨_, he, _⟩ => nomatch he

/-- A computation is made on the registry of its label, and what it did stays if it fails. -/
theorem inside_eq {α : Type} (building : Building α) :
    inside label building w = match building (w.visit label).2 with
      | .ok a r => .ok a ((w.visit label).1.put label r)
      | .error e r => .error e ((w.visit label).1.put label r) := by
  rw [inside, run_bind_of_ok (registry_eq w label)]
  cases building (w.visit label).2 <;> rfl

/-- A copy is what its model is, with the same token. -/
theorem copy_eq : copy label other w
    = .ok () ((w.visit label).1.put other (w.visit label).2) :=
  rfl

/-- An edit that fails leaves all as it was. -/
theorem update_of_error (edit : Registry → Except SchemaError Registry) (e : SchemaError)
    (h : w.registries.lookup label = some r) (he : edit r = .error e) :
    update label edit w = .error e w := by
  rw [update_eq, w.visit_of_lookup label r h]
  simp only [he]

end Working

end

end Schemata
