import Mathlib.Order.Defs.Unbundled
import Schemata.Proofs.Results
import Schemata.Registry.Building

/-!
# Runs of Computations

How a computation with a state that may fail is taken apart.

The exports and imports of schemas are written as such computations. A proof
about one of them does not unfold the plumbing: it asks what a run that came
to an end must have done (`run_bind_eq_ok_iff` and its companions), or it
follows a run step by step with what each step comes to (`run_bind_of_ok`).

What a run leaves behind does not depend on whether it fails. Here a relation
between states helps, if it is reflexive and transitive: a sequence keeps it if
both of its parts do (`along_bind`).

## Main definitions

* `stateAfter`: What a run leaves behind.
* `Along`: A computation leads from a state to a related one, also if it fails.

## Theorems

* `run_bind_eq_ok_iff`: A sequence succeeds if both of its parts do.
* `run_bind_of_ok`: A sequence goes on with what its first part gave.
* `run_ofExcept_eq_ok_iff`: A result that does not depend on the state.
* `stateAfter_bind`, `along_bind`, `along_mapM`: What sequences leave behind.
* `Building.run_update_eq_ok_iff`: What the step of a computation on a registry comes to.
-/

namespace Schemata

open MonadExcept (ofExcept)

section

variable {ε σ α β : Type}

/-! ### Runs that succeed -/

theorem run_bind_eq_ok_iff (x : EStateM ε σ α) (f : α → EStateM ε σ β) (s s' : σ) (b : β) :
    (x >>= f) s = .ok b s' ↔ ∃ a s₁, x s = .ok a s₁ ∧ f a s₁ = .ok b s' := by
  change EStateM.bind x f s = _ ↔ _
  unfold EStateM.bind
  cases hx : x s with
  | ok a s₁ =>
      constructor
      · exact fun h => ⟨a, s₁, rfl, h⟩
      · rintro ⟨a', s₁', he, h⟩
        injection he with ha hs
        rw [ha, hs]
        exact h
  | error e s₁ => exact iff_of_false nofun fun ⟨_, _, he, _⟩ => nomatch he

theorem run_bind_of_ok {x : EStateM ε σ α} {f : α → EStateM ε σ β} {s s₁ : σ} {a : α}
    (h : x s = .ok a s₁) : (x >>= f) s = f a s₁ := by
  change EStateM.bind x f s = _
  unfold EStateM.bind
  rw [h]

theorem run_bind_of_error {x : EStateM ε σ α} {f : α → EStateM ε σ β} {s s₁ : σ} {e : ε}
    (h : x s = .error e s₁) : (x >>= f) s = .error e s₁ := by
  change EStateM.bind x f s = _
  unfold EStateM.bind
  rw [h]

theorem run_pure (a : α) (s : σ) : (pure a : EStateM ε σ α) s = .ok a s :=
  rfl

theorem run_pure_eq_ok_iff (a b : α) (s s' : σ) :
    (pure a : EStateM ε σ α) s = .ok b s' ↔ a = b ∧ s = s' := by
  rw [run_pure, EStateM.Result.ok.injEq]

theorem run_throw_ne_ok {e : ε} {s s' : σ} {b : α} :
    (throw e : EStateM ε σ α) s ≠ .ok b s' := by
  change EStateM.throw e s ≠ _
  unfold EStateM.throw
  exact nofun

theorem run_get (s : σ) : (get : EStateM ε σ σ) s = .ok s s :=
  rfl

theorem run_modify (f : σ → σ) (s : σ) : (modify f : EStateM ε σ PUnit) s = .ok ⟨⟩ (f s) :=
  rfl

theorem run_ofExcept_eq_ok_iff {result : Except ε α} {s s' : σ} (a : α) :
    (ofExcept result : EStateM ε σ α) s = .ok a s' ↔ result = .ok a ∧ s = s' := by
  cases result with
  | ok b => rw [ofExcept, run_pure_eq_ok_iff, Except.ok.injEq]
  | error e => exact iff_of_false run_throw_ne_ok fun h => nomatch h.1

theorem run_bind_ne_ok {x : EStateM ε σ α} {f : α → EStateM ε σ β} {s : σ} {b : β}
    (h : ∀ a s₁ s', f a s₁ ≠ .ok b s') (s' : σ) : (x >>= f) s ≠ .ok b s' := by
  intro hrun
  rw [run_bind_eq_ok_iff] at hrun
  rcases hrun with ⟨a, s₁, _, hrest⟩
  exact h a s₁ s' hrest

theorem run_mapM_nil_eq_ok_iff (f : α → EStateM ε σ β) (s s' : σ) (bs : List β) :
    ([] : List α).mapM f s = .ok bs s' ↔ bs = [] ∧ s' = s := by
  rw [List.mapM_nil, run_pure_eq_ok_iff]
  exact ⟨fun h => ⟨h.1.symm, h.2.symm⟩, fun h => ⟨h.1.symm, h.2.symm⟩⟩

theorem run_mapM_cons_eq_ok_iff (f : α → EStateM ε σ β) (a : α) (as : List α) (s s' : σ)
    (bs : List β) : (a :: as).mapM f s = .ok bs s' ↔
      ∃ b rest s₁, f a s = .ok b s₁ ∧ as.mapM f s₁ = .ok rest s' ∧ bs = b :: rest := by
  rw [List.mapM_cons, run_bind_eq_ok_iff]
  constructor
  · rintro ⟨b, s₁, hb, h⟩
    rw [run_bind_eq_ok_iff] at h
    rcases h with ⟨rest, s₂, hrest, h⟩
    rw [run_pure_eq_ok_iff] at h
    exact ⟨b, rest, s₁, hb, h.2 ▸ hrest, h.1.symm⟩
  · rintro ⟨b, rest, s₁, hb, hrest, rfl⟩
    refine ⟨b, s₁, hb, ?_⟩
    rw [run_bind_of_ok hrest, run_pure]

theorem run_mapM_pair_eq_ok_iff (f : α → EStateM ε σ β) (a a' : α) (s s' : σ) (bs : List β) :
    [a, a'].mapM f s = .ok bs s' ↔
      ∃ b b' s₁, f a s = .ok b s₁ ∧ f a' s₁ = .ok b' s' ∧ bs = [b, b'] := by
  simp only [run_mapM_cons_eq_ok_iff, run_mapM_nil_eq_ok_iff]
  constructor
  · rintro ⟨b, rest, s₁, hb, ⟨b', rest', s₂, hb', ⟨rfl, rfl⟩, rfl⟩, rfl⟩
    exact ⟨b, b', s₁, hb, hb', rfl⟩
  · rintro ⟨b, b', s₁, hb, hb', rfl⟩
    exact ⟨b, [b'], s₁, hb, ⟨b', [], s', hb', ⟨rfl, rfl⟩, rfl⟩, rfl⟩

/-! ### What runs leave behind -/

/-- The state that a computation leaves behind, whether it fails or not. -/
def stateAfter : EStateM.Result ε σ α → σ
  | .ok _ s => s
  | .error _ s => s

/-- If the first part of a sequence fails, the second one is not reached. -/
theorem stateAfter_bind (p : σ → Prop) {x : EStateM ε σ α} {f : α → EStateM ε σ β} {s : σ}
    (hx : p (stateAfter (x s))) (hf : ∀ a s₁, x s = .ok a s₁ → p (stateAfter (f a s₁))) :
    p (stateAfter ((x >>= f) s)) := by
  cases hrun : x s with
  | ok a s₁ =>
      rw [run_bind_of_ok hrun]
      exact hf a s₁ hrun
  | error e s₁ =>
      rw [hrun] at hx
      rw [run_bind_of_error hrun]
      exact hx

/-- Whatever the computation comes to, it leads from a state to a related one. -/
def Along (rel : σ → σ → Prop) (x : EStateM ε σ α) : Prop :=
  ∀ s, rel s (stateAfter (x s))

variable {rel : σ → σ → Prop} [IsPreorder σ rel]

theorem along_pure {a : α} : Along rel (pure a : EStateM ε σ α) :=
  Std.Refl.refl (r := rel)

theorem along_throw {e : ε} : Along rel (throw e : EStateM ε σ α) :=
  Std.Refl.refl (r := rel)

theorem along_get : Along rel (get : EStateM ε σ σ) :=
  Std.Refl.refl (r := rel)

theorem along_ofExcept {result : Except ε α} : Along rel (ofExcept result : EStateM ε σ α) := by
  cases result with
  | ok a => exact along_pure
  | error e => exact along_throw

theorem along_bind {x : EStateM ε σ α} {f : α → EStateM ε σ β} (hx : Along rel x)
    (hf : ∀ a, Along rel (f a)) : Along rel (x >>= f) := by
  intro s
  refine stateAfter_bind (rel s) (hx s) fun a s₁ hrun => ?_
  have hfirst := hx s
  rw [hrun] at hfirst
  exact IsTrans.trans _ _ _ hfirst (hf a s₁)

theorem along_mapM (f : α → EStateM ε σ β) (hf : ∀ a, Along rel (f a)) (list : List α) :
    Along rel (list.mapM f) := by
  induction list with
  | nil =>
      rw [List.mapM_nil]
      exact along_pure
  | cons a rest ih =>
      rw [List.mapM_cons]
      exact along_bind (hf a) fun _ => along_bind ih fun _ => along_pure

end

/-! ### Computations on a registry -/

namespace Building

variable {α : Type}

theorem run_ofShape_eq_ok_iff {result : Except ShapeFault α} (r r' : Registry) {a : α} :
    ofShape result r = .ok a r' ↔ result = .ok a ∧ r = r' := by
  rw [ofShape, run_ofExcept_eq_ok_iff, mapError_eq_ok_iff]

theorem run_ofConstruction_eq_ok_iff (result : Except ConstructionFault α) (r r' : Registry)
    (a : α) : ofConstruction result r = .ok a r' ↔ result = .ok a ∧ r = r' := by
  rw [ofConstruction, run_ofExcept_eq_ok_iff, mapError_eq_ok_iff]

theorem run_update_eq_ok_iff {step : Registry → Except SchemaError (Registry × α)}
    {r r' : Registry} {a : α} : update step r = .ok a r' ↔ step r = .ok (r', a) := by
  unfold update
  rcases hs : step r with e | ⟨r₁, b⟩
  · simp only [reduceCtorEq]
  · simp only [EStateM.Result.ok.injEq, Except.ok.injEq, Prod.mk.injEq]
    exact And.comm

/-- A step leads to another registry if it succeeds. Otherwise it changes nothing. -/
theorem stateAfter_update (p : Registry → Prop)
    (step : Registry → Except SchemaError (Registry × α)) (r : Registry) (hr : p r)
    (h : ∀ r' a, step r = .ok (r', a) → p r') : p (stateAfter (update step r)) := by
  unfold update
  rcases hs : step r with e | ⟨r', a⟩
  · exact hr
  · exact h r' a hs

variable {rel : Registry → Registry → Prop} [IsPreorder Registry rel]

theorem along_ofShape {result : Except ShapeFault α} : Along rel (ofShape result) :=
  along_ofExcept

theorem along_ofConstruction {result : Except ConstructionFault α} :
    Along rel (ofConstruction result) :=
  along_ofExcept

theorem along_update (step : Registry → Except SchemaError (Registry × α))
    (h : ∀ r r' a, step r = .ok (r', a) → rel r r') : Along rel (update step) :=
  fun r => stateAfter_update (rel r) step r (Std.Refl.refl (r := rel) r) (h r)

end Building

end Schemata
