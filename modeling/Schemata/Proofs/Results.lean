import Mathlib.Logic.Basic

/-!
# Results of Computations

When a computation that may fail has come to a result.

A proof about a function of this kind asks what each of its steps must have come to
(`bind_eq_ok_iff`), and which of its refusals it has passed (`refuse_eq_ok_iff`). To
rename a failure makes no success.

## Theorems

* `bind_eq_ok_iff`, `pure_eq_ok_iff`: A sequence succeeds if both of its parts do.
* `mapError_eq_ok_iff`, `map_mapError_eq_ok_iff`: Failures that are renamed.
* `refuse_eq_ok_iff`, `reject_eq_ok_iff`: A refusal is passed if its condition does not
  hold.
-/

namespace Schemata

section

variable {ε ε' α β : Type}

/-- A computation succeeds if its first part does and the second one on what comes out of it. -/
theorem bind_eq_ok_iff {result : Except ε α} {f : α → Except ε β} {b : β} :
    (result >>= f) = .ok b ↔ ∃ a, result = .ok a ∧ f a = .ok b := by
  cases result with
  | error e => simp only [bind, Except.bind, reduceCtorEq, false_and, exists_false]
  | ok a => simp only [bind, Except.bind, Except.ok.injEq, exists_eq_left']

theorem pure_eq_ok_iff (a b : α) : (pure a : Except ε α) = .ok b ↔ a = b := by
  simp only [pure, Except.pure, Except.ok.injEq]

theorem mapError_eq_ok_iff (f : ε → ε') (result : Except ε α) (a : α) :
    result.mapError f = .ok a ↔ result = .ok a := by
  cases result with
  | ok b =>
      change Except.ok b = .ok a ↔ Except.ok b = .ok a
      rw [Except.ok.injEq, Except.ok.injEq]
  | error e =>
      change Except.error (f e) = .ok a ↔ Except.error e = .ok a
      simp only [reduceCtorEq]

/-- What is read and then made into a value is there if it is read. -/
theorem map_mapError_eq_ok_iff (result : Except ε α) (f : α → β) (g : ε → ε') (b : β) :
    (result.map f).mapError g = .ok b ↔ ∃ a, result = .ok a ∧ b = f a := by
  rw [mapError_eq_ok_iff]
  cases result with
  | error e => exact iff_of_false nofun fun ⟨_, h, _⟩ => nomatch h
  | ok a => simp only [Except.map, Except.ok.injEq, exists_eq_left', eq_comm]

theorem exists_map_mapError_iff {result : Except ε α} {f : α → β} {g : ε → ε'} :
    (∃ b, (result.map f).mapError g = .ok b) ↔ ∃ a, result = .ok a := by
  simp only [map_mapError_eq_ok_iff]
  exact ⟨fun ⟨_, a, h, _⟩ => ⟨a, h⟩, fun ⟨a, h⟩ => ⟨_, a, h, rfl⟩⟩

/-- A refusal with a cause is one that ends the computation. -/
theorem reject_eq_ok_iff (c : Prop) [Decidable c] (e : ε) (rest : Except ε α) (a : α) :
    (if c then (Except.error e : Except ε PUnit) >>= fun _ => rest else rest) = .ok a ↔
      ¬ c ∧ rest = .ok a := by
  by_cases hc : c
  · rw [if_pos hc]
    change Except.error e = .ok a ↔ _
    simp only [reduceCtorEq, hc, not_true_eq_false, false_and]
  · rw [if_neg hc]
    simp only [hc, not_false_eq_true, true_and]

/-- A computation goes on behind a refusal if its condition does not hold. -/
theorem refuse_eq_ok_iff (c : Prop) [Decidable c] (e : ε) (rest : Except ε α) (a : α) :
    (if c then (throw e : Except ε PUnit) >>= fun _ => rest else rest) = .ok a ↔
      ¬ c ∧ rest = .ok a :=
  reject_eq_ok_iff c e rest a

end

end Schemata
