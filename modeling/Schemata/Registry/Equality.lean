import Schemata.Registry.Basic

/-!
# Structural Equality

Whether two types, each of its own registry, are the same graph. Structs are
compared by names, documentation and fields, not by handle, so the graphs
may be laid out differently.

A graph may come back to a struct it is still comparing. Such a pair is taken
to be equal: if it is not, the mismatch shows where the pair is first
compared, and that comparison is part of the same run. Each comparison of
bodies meets a new pair of structs, so the number of pairs bounds how deep
they nest.

## Main definitions

* `Registry.sameType`, `Registry.sameStruct`, `Registry.sameField`: The
  comparison of types, of structs and of fields.
-/

namespace Schemata

namespace Registry

/-- The pairs of structs whose comparison has begun. -/
abbrev Pairs :=
  List (Nat × Nat)

/-- The two enums are equal. -/
def sameEnum (a b : EnumType) : Bool :=
  a = b

/-- The two fields agree in all but their types. -/
def sameFieldHead (a b : Field) : Bool :=
  a.names = b.names && a.documentation = b.documentation && a.cardinality = b.cardinality &&
    a.default.same b.default

/-- Compare fields one by one, with a comparison of types; the first mismatch ends it. -/
def sameFieldsWith (compare : Pairs → Ty → Ty → Bool × Pairs) :
    Pairs → List Field → List Field → Bool × Pairs
  | seen, [], [] => (true, seen)
  | seen, a :: as, b :: bs =>
    if sameFieldHead a b then
      match compare seen a.type b.type with
      | (true, seen) => sameFieldsWith compare seen as bs
      | (false, seen) => (false, seen)
    else (false, seen)
  | seen, _, _ => (false, seen)

/-- Compare two structs, with a comparison of types. -/
def sameStructWith (left right : Registry) (compare : Pairs → Ty → Ty → Bool × Pairs)
    (seen : Pairs) (i j : Nat) : Bool × Pairs :=
  -- Compared already, or being compared further out.
  if (i, j) ∈ seen then (true, seen)
  else
    let seen := (i, j) :: seen
    let a := left.struct i
    let b := right.struct j
    if a.names = b.names ∧ a.documentation = b.documentation then
      match a.fields, b.fields with
      | none, none => (true, seen)
      | some as, some bs =>
        if as.length = bs.length then sameFieldsWith compare seen as bs else (false, seen)
      | _, _ => (false, seen)
    else (false, seen)

/-- Compare two types, with a comparison of types for the fields of structs. -/
def sameTypeWith (left right : Registry) (compare : Pairs → Ty → Ty → Bool × Pairs)
    (seen : Pairs) (s t : Ty) : Bool × Pairs :=
  if s.layers ≠ t.layers then (false, seen)
  else
    match s.core, t.core with
    | .scalar a, .scalar b => (a = b, seen)
    | .decimal a, .decimal b => (a = b, seen)
    | .named (.enumeration i), .named (.enumeration j) =>
      (sameEnum (left.enumeration i) (right.enumeration j), seen)
    | .named (.struct i), .named (.struct j) => sameStructWith left right compare seen i j
    | _, _ => (false, seen)

/-- Compare two types; bodies of structs may nest to a depth. -/
def sameTypeAt (left right : Registry) : (depth : Nat) → Pairs → Ty → Ty → Bool × Pairs
  -- Every level of bodies is one more pair that has been seen, so that this is not reached.
  | 0 => sameTypeWith left right fun seen _ _ => (false, seen)
  | depth + 1 => sameTypeWith left right (sameTypeAt left right depth)

/-- A depth that no comparison exceeds. -/
def pairCount (left right : Registry) : Nat :=
  left.structs.length * right.structs.length

/-- The two types, each of its own registry, are the same graph. -/
def sameType (left : Registry) (s : Ty) (right : Registry) (t : Ty) : Bool :=
  (sameTypeAt left right (pairCount left right) [] s t).1

/-- The two structs, each of its own registry, are the same graph. -/
def sameStruct (left : Registry) (i : Nat) (right : Registry) (j : Nat) : Bool :=
  left.sameType (.named (.struct i)) right (.named (.struct j))

/-- The two fields, each of its own registry, are the same. -/
def sameField (left : Registry) (a : Field) (right : Registry) (b : Field) : Bool :=
  sameFieldHead a b && left.sameType a.type right b.type

end Registry

end Schemata
