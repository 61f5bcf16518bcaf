import Schemata.Number.Binary

/-!
# Shortest Decimal Digits

The fewest decimal digits that still single out a floating-point number, and
the two ways they are laid out: as a plain number without an exponent, and
as a number of a JSON document.

A finite number owns an interval of reals, those that round to it. On the
grid of numbers with a given count of digits the candidates are the two
neighbours of the number itself; the first count for which one of them lies
in the interval gives the digits, and of two candidates the nearer wins. Of
two that are equally near, the layout says which.

## Main definitions

* `Digits`: A decimal number, digits and a power of ten.
* `Tie`: Which of two equally near candidates wins.
* `Format.shortest`: The digits of a positive number.
* `Layout`: Where positional notation ends, and the marks around the digits.
* `Layout.plain`, `Layout.document`: The two layouts.
* `Format.text`: The text of any number of a format.
-/

namespace Schemata

/-- The decimal number `digits * 10 ^ exponent`. -/
structure Digits where
  digits : Nat
  exponent : Int
  deriving DecidableEq, Repr

/-- Which of two equally near candidates wins. -/
inductive Tie where
  /-- The one farther from zero. -/
  | away
  /-- The one whose last digit is even. -/
  | even
  deriving DecidableEq, Repr

/-- The lower candidate wins a tie. -/
def Tie.takesLower (tie : Tie) (lower : Nat) : Bool :=
  match tie with
  | .away => false
  | .even => lower % 2 = 0

namespace Format

/-- The fraction `num / den` times a power of ten, as a fraction. -/
def tenfold (num den : Nat) (power : Int) : Nat × Nat :=
  if 0 ≤ power then (num * Nat.pow 10 power.toNat, den) else (num, den * Nat.pow 10 (-power).toNat)

/-- A natural number of quarters times a power of two, as a fraction. -/
def quarters (count : Nat) (exponent : Int) : Nat × Nat :=
  if 2 ≤ exponent then (count * Nat.pow 2 (exponent - 2).toNat, 1)
  else (count, Nat.pow 2 (2 - exponent).toNat)

/-- The lower half of the interval is only half as wide where the exponent changes. -/
def lowQuarters (format : Format) (number : Finite) : Nat :=
  if number.mantissa = Nat.pow 2 (format.precision - 1) ∧ format.least < number.exponent then
    4 * number.mantissa - 1
  else 4 * number.mantissa - 2

/-- The candidate of the grid lies in the interval that rounds to the number. The ends
    belong to the interval when the mantissa is even. -/
def inInterval (format : Format) (number : Finite) (candidate : Nat) (power : Int) : Bool :=
  -- Both ends of the interval have the same denominator.
  let (low, den) := quarters (format.lowQuarters number) number.exponent
  let (high, _) := quarters (4 * number.mantissa + 2) number.exponent
  let (c, d) := tenfold candidate 1 power
  if number.mantissa % 2 = 0 then low * d ≤ c * den && c * den ≤ high * d
  else low * d < c * den && c * den < high * d

/-- The number of digits in front of the point of a positive fraction; zero or less
    when it is below one tenth. -/
def pointPlace (num den : Nat) : Int :=
  -- The lengths determine the place but for one.
  let guess : Int := Integer.digitCount num - Integer.digitCount den
  let (n, d) := tenfold num den (-guess)
  if d ≤ n then guess + 1 else guess

/-- The best candidate with a count of digits, if one lies in the interval. -/
def candidate? (format : Format) (tie : Tie) (number : Finite) (num den : Nat) (place : Int)
    (count : Nat) : Option Digits :=
  let power := place - count
  let (n, d) := tenfold num den (-power)
  let below := n / d
  let twice := 2 * (n % d)
  -- Of two candidates in the interval the nearer one is taken.
  let lower := format.inInterval number below power
  let upper := format.inInterval number (below + 1) power
  if lower && (!upper || twice < d || (twice = d && tie.takesLower below)) then some ⟨below, power⟩
  else if upper then some ⟨below + 1, power⟩
  else none

/-- The first count of digits with a candidate; seventeen always have one. -/
def search (format : Format) (tie : Tie) (number : Finite) (num den : Nat) (place : Int) :
    (fuel count : Nat) → Digits
  | 0, _ => ⟨number.mantissa, 0⟩
  | fuel + 1, count =>
    (format.candidate? tie number num den place count).getD
      (format.search tie number num den place fuel (count + 1))

/-- Move trailing zeros of the digits into the exponent. -/
def stripZeros : (fuel : Nat) → Digits → Digits
  | 0, d => d
  | fuel + 1, d =>
    if d.digits ≠ 0 ∧ d.digits % 10 = 0 then stripZeros fuel ⟨d.digits / 10, d.exponent + 1⟩
    else d

/-- The fewest digits that read back as the positive number, the nearest of those. -/
def shortest (format : Format) (tie : Tie) (number : Finite) : Digits :=
  let (num, den) := quarters (4 * number.mantissa) number.exponent
  stripZeros 20 (format.search tie number num den (pointPlace num den) 20 1)

end Format

/-- How digits are laid out. -/
structure Layout where
  /-- The least number of places in front of the point written positionally. -/
  lowest : Option Int
  /-- The greatest number of places in front of the point written positionally. -/
  highest : Option Int
  /-- What follows the digits of a whole number. -/
  wholeMark : String
  /-- Which of two equally near texts is written. -/
  tie : Tie
  deriving DecidableEq, Repr

namespace Layout

/-- Always positional, a whole number has no point, and a tie goes away from zero. -/
def plain : Layout :=
  ⟨none, none, "", .away⟩

/-- Positional from `0.00001` up to sixteen places, a whole number ends in `.0`, and a tie
    goes to the even digit. -/
def document : Layout :=
  ⟨some (-4), some 16, ".0", .even⟩

/-- The point falls within the positional range. -/
def isPositional (layout : Layout) (place : Int) : Bool :=
  layout.lowest.all (· ≤ place) && layout.highest.all (place ≤ ·)

/-- Digits around the point, filled up with zeros on either side. -/
def positional (layout : Layout) (digits : List Char) (place : Int) : String :=
  if place ≤ 0 then
    "0." ++ String.ofList (List.replicate (-place).toNat '0' ++ digits)
  else if digits.length ≤ place.toNat then
    String.ofList (digits ++ List.replicate (place.toNat - digits.length) '0') ++ layout.wholeMark
  else
    String.ofList (digits.take place.toNat) ++ "." ++ String.ofList (digits.drop place.toNat)

/-- One digit in front of the point, and a signed exponent. -/
def scientific (digits : List Char) (place : Int) : String :=
  let part := if digits.length ≤ 1 then "" else "." ++ String.ofList (digits.drop 1)
  let exponent := place - 1
  let sign := if exponent < 0 then "-" else "+"
  String.ofList (digits.take 1) ++ part ++ "e" ++ sign ++ toString exponent.natAbs

/-- The text of a positive number's digits. -/
def digits (layout : Layout) (d : Digits) : String :=
  let cs := Integer.digits d.digits
  let place := d.exponent + cs.length
  if layout.isPositional place then layout.positional cs place else scientific cs place

end Layout

namespace Format

/-- The text of a finite number. -/
def finiteText (format : Format) (layout : Layout) (number : Finite) : String :=
  (if number.negative then "-" else "") ++
    (if number.mantissa = 0 then "0" ++ layout.wholeMark
     else layout.digits (format.shortest layout.tie number))

/-- The text of any number. -/
def text (format : Format) (layout : Layout) : Binary → String
  | .finite number => format.finiteText layout number
  | .infinite negative => if negative then "-inf" else "inf"
  | .nan => "NaN"

end Format

end Schemata
