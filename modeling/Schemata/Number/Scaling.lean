import Schemata.Number.Binary

/-!
# Scaling by Powers of Ten

Numbers of double precision times a power of ten, in rounded arithmetic: the
mantissa, the power and the result are each rounded once. The result is the
nearest number wherever mantissa and power are exact, that is up to 53 bits
and to the power 22; beyond it may miss the nearest number by its last bits.

A power that is too small for the format is divided by in steps, so that what
is left may still be a number below the least normal one.

## Main definitions

* `Format.product`, `Format.quotient`: Rounded arithmetic.
* `Scaling.scale`: A number times a power of ten.
* `Scaling.ofDecimal`: The number of a mantissa and a decimal exponent.
-/

namespace Schemata

/-- The fraction that a number is, whatever its sign. -/
def Finite.fraction (number : Finite) : Nat × Nat :=
  if 0 ≤ number.exponent then (number.mantissa * Nat.pow 2 number.exponent.toNat, 1)
  else (number.mantissa, Nat.pow 2 (-number.exponent).toNat)

namespace Format

/-- The number nearest to a fraction, which may be zero. -/
def ofFraction (format : Format) (negative : Bool) (num den : Nat) : Binary :=
  if num = 0 then .finite (format.zero negative) else format.nearest negative num den

/-- The number nearest to a product. -/
def product (format : Format) (a b : Finite) : Binary :=
  format.ofFraction (a.negative != b.negative) (a.fraction.1 * b.fraction.1)
    (a.fraction.2 * b.fraction.2)

/-- The number nearest to a quotient; the divisor is not zero. -/
def quotient (format : Format) (a b : Finite) : Binary :=
  format.ofFraction (a.negative != b.negative) (a.fraction.1 * b.fraction.2)
    (a.fraction.2 * b.fraction.1)

end Format

namespace Scaling

/-- The greatest exponent of a power of ten in double precision. -/
def reach : Nat :=
  308

/-- The number nearest to a power of ten. -/
def power (exponent : Nat) : Binary :=
  Format.double.ofDecimal false 1 exponent

/-- A number times a power of ten. -/
def up (number : Finite) (exponent : Nat) : Binary :=
  match power exponent with
  | .finite factor => Format.double.product number factor
  | _ => .infinite number.negative

/-- A number divided by a power of ten, in steps that are no longer than the reach. -/
def down (number : Finite) (exponent : Nat) : Binary :=
  match power (min exponent reach) with
  | .finite divisor =>
    match Format.double.quotient number divisor with
    | .finite result =>
      if exponent ≤ reach ∨ result.mantissa = 0 then .finite result
      else down result (exponent - reach)
    | other => other
  | other => other
termination_by exponent
decreasing_by simp_all [reach]; omega

/-- A number times `10 ^ exponent`. Zero stays zero. -/
def scale (number : Finite) (exponent : Int) : Binary :=
  if number.mantissa = 0 then .finite number
  else if 0 ≤ exponent then up number exponent.toNat
  else down number (-exponent).toNat

/-- The number of `mantissa * 10 ^ exponent`, whose mantissa is rounded first. -/
def ofDecimal (negative : Bool) (mantissa : Nat) (exponent : Int) : Binary :=
  match Format.double.ofDecimal negative mantissa 0 with
  | .finite number => scale number exponent
  | other => other

end Scaling

end Schemata
