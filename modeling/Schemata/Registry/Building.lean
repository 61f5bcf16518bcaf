import Schemata.Registry.Basic

/-!
# Computations on a Registry

Drafts and documents add their types to a registry one after the other. Each such
computation may fail half-way, with some of its types added already; whether these
are dropped again is left to the caller.

## Main definitions

* `Building`: A computation that adds types to a registry, or fails.
* `Building.update`: A single step, which adds something or leaves all as it was.
* `Building.ofConstruction`, `Building.ofShape`: What does not depend on the registry.
-/

namespace Schemata

/-- A computation that adds types to a registry, or fails with some of them added. -/
abbrev Building :=
  EStateM SchemaError Registry

namespace Building

open MonadExcept (ofExcept)

/-- A step that either gives another registry or leaves it alone. -/
def update (step : Registry → Except SchemaError (Registry × α)) : Building α :=
  fun r =>
    match step r with
    | .ok (r', a) => .ok a r'
    | .error e => .error e r

/-- What has been made, or why it cannot be. -/
def ofConstruction (result : Except ConstructionFault α) : Building α :=
  ofExcept (result.mapError SchemaError.construction)

/-- What the shape of a document comes to. -/
def ofShape (result : Except ShapeFault α) : Building α :=
  ofExcept (result.mapError SchemaError.shape)

end Building

end Schemata
