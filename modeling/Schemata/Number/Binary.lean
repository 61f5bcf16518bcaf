import Schemata.Number.Integer

/-!
# Binary Floating Point

Floating-point numbers as exact values: a sign, a natural mantissa and a
power of two. Nothing here computes with machine floats. A format says how
many bits a mantissa may have and how far the exponent reaches; rounding a
fraction to it is done in exact arithmetic and directly to the target, so a
single-precision number is never rounded twice.

Every finite number of a format has one representation: the mantissa fills
the available bits unless the exponent is already the least.

## Main definitions

* `Format`: Mantissa bits and exponent range; `single` and `double`.
* `Finite`, `Binary`: A finite number; with the infinities and not-a-number.
* `Format.nearest`: The number nearest to a fraction, ties to the even mantissa.
* `Format.ofDecimal`: The number nearest to `mantissa * 10 ^ exponent`.
* `Format.read`: The number that a literal stands for.
* `Format.bits?`: The interchange bit pattern.
-/

namespace Schemata

/-- A floating-point format. -/
structure Format where
  /-- The number of bits of a full mantissa. -/
  precision : Nat
  /-- The exponent of the least positive number. -/
  least : Int
  /-- The exponent of the greatest mantissa. -/
  greatest : Int
  /-- The number of bits of the interchange pattern. -/
  width : Nat
  deriving DecidableEq, Repr

/-- A finite floating-point number, `±mantissa * 2 ^ exponent`. -/
structure Finite where
  negative : Bool
  mantissa : Nat
  exponent : Int
  deriving DecidableEq, Repr

/-- A floating-point number. -/
inductive Binary where
  | finite (number : Finite)
  | infinite (negative : Bool)
  | nan
  deriving DecidableEq, Repr

namespace Format

/-- Single precision. -/
def single : Format :=
  ⟨24, -149, 104, 32⟩

/-- Double precision. -/
def double : Format :=
  ⟨53, -1074, 971, 64⟩

/-- Zero with a sign. -/
def zero (format : Format) (negative : Bool) : Finite :=
  ⟨negative, 0, format.least⟩

/-- The fraction `num / (den * 2 ^ exponent)` as a numerator and a denominator. -/
def scaled (num den : Nat) (exponent : Int) : Nat × Nat :=
  if 0 ≤ exponent then (num, den * Nat.pow 2 exponent.toNat)
  else (num * Nat.pow 2 (-exponent).toNat, den)

/-- The natural number nearest to a fraction, ties to the even one. -/
def roundHalfEven (num den : Nat) : Nat :=
  let quotient := num / den
  let twice := 2 * (num % den)
  if twice < den ∨ (twice = den ∧ quotient % 2 = 0) then quotient else quotient + 1

/-- The exponent at which the fraction's mantissa fills the format, or the least one. -/
def exponentFor (format : Format) (num den : Nat) : Int :=
  -- The lengths in bits determine the exponent but for one.
  let guess : Int := num.log2 - den.log2 - format.precision + 1
  let (n, d) := scaled num den guess
  let exact := if n / d < Nat.pow 2 (format.precision - 1) then guess - 1 else guess
  max exact format.least

/-- The number nearest to a positive fraction, ties to the even mantissa. -/
def nearest (format : Format) (negative : Bool) (num den : Nat) : Binary :=
  let exponent := format.exponentFor num den
  let (n, d) := scaled num den exponent
  let rounded := roundHalfEven n d
  let full := Nat.pow 2 format.precision
  -- Rounding may fill the mantissa, which is halved then.
  let number : Finite :=
    if rounded = full then ⟨negative, full / 2, exponent + 1⟩ else ⟨negative, rounded, exponent⟩
  if format.greatest < number.exponent then .infinite negative else .finite number

/-- Decimal exponents beyond which every number of either format has overflowed, or has
    rounded to zero, whatever its leading digit. -/
def decimalReach : Int :=
  400

/-- The number nearest to `mantissa * 10 ^ exponent`. Far outside the reach of the
    formats the power of ten is not computed. -/
def ofDecimal (format : Format) (negative : Bool) (mantissa : Nat) (exponent : Int) : Binary :=
  if mantissa = 0 then .finite (format.zero negative)
  else
    let magnitude := exponent + Integer.digitCount mantissa
    if decimalReach < magnitude then .infinite negative
    else if magnitude < -decimalReach then .finite (format.zero negative)
    else if 0 ≤ exponent then format.nearest negative (mantissa * Nat.pow 10 exponent.toNat) 1
    else format.nearest negative mantissa (Nat.pow 10 (-exponent).toNat)

/-- The bits of an infinity, without the sign. -/
def infinityBits (format : Format) : Nat :=
  Nat.pow 2 (format.width - 1) - Nat.pow 2 (format.precision - 1)

/-- The interchange pattern of a finite number, without the sign. -/
def finiteBits (format : Format) (number : Finite) : Nat :=
  let hidden := Nat.pow 2 (format.precision - 1)
  if number.mantissa < hidden then number.mantissa
  else ((number.exponent - format.least).toNat + 1) * hidden + (number.mantissa - hidden)

/-- The interchange pattern; not-a-number has none of its own. -/
def bits? (format : Format) : Binary → Option Nat
  | .finite number =>
    some (format.finiteBits number + if number.negative then Nat.pow 2 (format.width - 1) else 0)
  | .infinite negative =>
    some (format.infinityBits + if negative then Nat.pow 2 (format.width - 1) else 0)
  | .nan => none

end Format

namespace Binary

/-- Why a text is not a floating-point literal. -/
inductive Fault where
  /-- There is no text at all. -/
  | empty
  /-- The text is neither a number, an infinity nor not-a-number. -/
  | malformed
  deriving DecidableEq, Repr

/-- The wording of a fault. -/
def Fault.message : Fault → String
  | .empty => "cannot parse float from empty string"
  | .malformed => "invalid float literal"

end Binary

namespace Format

/-- The exponent that ends a literal: nothing, or a letter, an optional sign and digits. -/
def readExponent? : List Char → Option Int
  | [] => some 0
  | mark :: rest =>
    if mark = 'e' ∨ mark = 'E' then
      let (negative, ds) :=
        match rest with
        | '-' :: ds => (true, ds)
        | '+' :: ds => (false, ds)
        | ds => (false, ds)
      if ds ≠ [] ∧ ds.all Char.isDigit then
        some (if negative then -Integer.digitsValue ds else Integer.digitsValue ds)
      else none
    else none

/-- The number of an unsigned literal: digits with at most one point, at least one digit
    on either side of it, and an optional exponent. -/
def readNumber? (format : Format) (negative : Bool) (cs : List Char) : Option Binary := do
  let whole := cs.takeWhile Char.isDigit
  let rest := cs.dropWhile Char.isDigit
  let (part, rest) :=
    match rest with
    | '.' :: rest => (rest.takeWhile Char.isDigit, rest.dropWhile Char.isDigit)
    | rest => ([], rest)
  guard (whole ≠ [] ∨ part ≠ [])
  let exponent ← readExponent? rest
  return format.ofDecimal negative (Integer.digitsValue (whole ++ part)) (exponent - part.length)

/-- The number of an unsigned literal, in words or in digits. -/
def readUnsigned? (format : Format) (negative : Bool) (cs : List Char) : Option Binary :=
  let word := String.ofList (cs.map Char.toLower)
  if word = "inf" ∨ word = "infinity" then some (.infinite negative)
  else if word = "nan" then some .nan
  else format.readNumber? negative cs

/-- The number of the format that a literal stands for. -/
def read (format : Format) (text : String) : Except Binary.Fault Binary :=
  match text.toList with
  | [] => .error .empty
  | '-' :: cs => (format.readUnsigned? true cs).elim (.error .malformed) .ok
  | '+' :: cs => (format.readUnsigned? false cs).elim (.error .malformed) .ok
  | cs => (format.readUnsigned? false cs).elim (.error .malformed) .ok

end Format

end Schemata
