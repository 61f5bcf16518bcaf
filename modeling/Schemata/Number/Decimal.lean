import Schemata.Number.Integer

/-!
# Exact Decimals

Decimal numbers as an integer mantissa and a scale: `mantissa * 10 ^ -scale`.
A literal keeps the scale it was written with, so `12` and `12.00` are
different decimals of equal value.

Reading follows a grammar that is looser than the usual one: underscores may
stand between digits, a dot may stand at either end, and the sign may be
doubled in the one form `-` followed by digits or `+` followed by digits.
The exponent is read first, and its faults come first.

## Main definitions

* `Decimal`: A mantissa and a scale.
* `Decimal.read`: The decimal of a literal, or the reason it has none.
* `Decimal.rescale`: The same number cut or extended to another scale.
* `Decimal.SameValue`: Equality of the numbers, whatever the scales.
* `Decimal.text`: The literal that is printed.
-/

namespace Schemata

/-- The number `mantissa * 10 ^ -scale`. -/
structure Decimal where
  mantissa : Int
  scale : Int
  deriving DecidableEq, Repr

namespace Decimal

/-- Why a text is not a decimal literal. -/
inductive Fault where
  /-- Nothing stands in front of the exponent. -/
  | empty
  /-- The digits or the exponent are not an integer. -/
  | digits (fault : Integer.Fault)
  /-- The scale is out of reach. -/
  | exponentOverflow (text : String)
  deriving DecidableEq, Repr

/-- The wording of a fault. -/
def Fault.message : Fault → String
  | .empty => "Failed to parse empty string"
  | .digits fault => fault.message
  | .exponentOverflow text => "Exponent overflow when parsing '" ++ text ++ "'"

/-- The mark of an exponent. -/
def isExponentMark (c : Char) : Bool :=
  c == 'e' || c == 'E'

/-- The exponents that can be written. -/
def exponentRange : Integer.Range :=
  .signed 128

/-- The scales that a decimal can have. -/
def scaleRange : Integer.Range :=
  .signed 64

/-- The value of digits with underscores between them, starting from `total`. -/
def readDigits (total : Nat) : List Char → Except Integer.Fault Nat
  | [] => .ok total
  | '_' :: rest => readDigits total rest
  | c :: rest =>
    match Integer.digitValue? c with
    | none => .error .badDigit
    | some d => readDigits (10 * total + d) rest

/-- The value of an unsigned run of digits; it may not start with an underscore, and one
    plus sign in front of it is dropped. -/
def readNatural (cs : List Char) : Except Integer.Fault Nat :=
  let cs :=
    match cs with
    | '+' :: '+' :: _ => cs
    | '+' :: rest => rest
    | cs => cs
  match cs with
  | [] => .error .empty
  | '_' :: _ => .error .badDigit
  | cs => readDigits 0 cs

/-- The mantissa of a run of digits, with a minus sign unless a plus sign follows it. -/
def readMantissa (cs : List Char) : Except Integer.Fault Int :=
  match cs with
  | '-' :: '+' :: _ => do return -(← readNatural cs)
  | '-' :: rest => do return -(← readNatural rest)
  | cs => do return (← readNatural cs)

/-- The digits on both sides of the first dot, and how many of them stand behind it. A dot
    at the very end counts for nothing. -/
def splitPoint (cs : List Char) : List Char × Nat :=
  let whole := cs.takeWhile (· ≠ '.')
  match cs.dropWhile (· ≠ '.') with
  | _ :: part => (whole ++ part, (part.filter (· ≠ '_')).length)
  | [] => (whole, 0)

/-- The exponent behind the mark, or zero where there is no mark. -/
def readExponent : List Char → Except Integer.Fault Int
  | _ :: cs => exponentRange.read cs
  | [] => .ok 0

/-- The decimal that a literal stands for. -/
def read (text : String) : Except Fault Decimal := do
  let cs := text.toList
  let base := cs.takeWhile (!isExponentMark ·)
  let exponent ← (readExponent (cs.dropWhile (!isExponentMark ·))).mapError Fault.digits
  if base = [] then
    throw .empty
  let (digits, offset) := splitPoint base
  let scale := offset - exponent
  if scale < scaleRange.least ∨ scaleRange.greatest < scale then
    throw (.exponentOverflow text)
  let mantissa ← (readMantissa digits).mapError Fault.digits
  return ⟨mantissa, scale⟩

/-- The number of decimal digits of the mantissa. -/
def digitCount (d : Decimal) : Nat :=
  Integer.digitCount d.mantissa.natAbs

/-- The number at another scale: extended by zeros, or cut towards zero. -/
def rescale (d : Decimal) (scale : Int) : Decimal :=
  if d.scale ≤ scale then ⟨d.mantissa * Nat.pow 10 (scale - d.scale).toNat, scale⟩
  else ⟨d.mantissa.tdiv (Nat.pow 10 (d.scale - scale).toNat), scale⟩

/-- The two decimals are the same number. -/
def SameValue (a b : Decimal) : Prop :=
  (a.rescale (max a.scale b.scale)).mantissa = (b.rescale (max a.scale b.scale)).mantissa

instance (a b : Decimal) : Decidable (SameValue a b) :=
  inferInstanceAs (Decidable (_ = _))

/-- More leading zeros behind the point than this are written as an exponent. -/
def leadingZeroLimit : Int :=
  5

/-- Digits with the last `places` of them behind a point. -/
def plainDigits (digits : List Char) (places : Nat) : List Char :=
  if places = 0 then digits
  else
    let padded := List.replicate (places + 1 - digits.length) '0' ++ digits
    padded.take (padded.length - places) ++ '.' :: padded.drop (padded.length - places)

/-- One digit in front of the point, and an exponent. -/
def scientificDigits (digits : List Char) (scale : Int) : List Char :=
  let part := if digits.length ≤ 1 then [] else '.' :: digits.drop 1
  let exponent := digits.length - 1 - scale
  digits.take 1 ++ part ++ 'E' :: (toString exponent).toList

/-- The printed literal: plain with exactly `scale` places, or with an exponent when the
    number is very small. Zero is written without places. -/
def text (d : Decimal) : String :=
  if d.mantissa = 0 then "0"
  else
    let digits := Integer.digits d.mantissa.natAbs
    let sign := if d.mantissa < 0 then "-" else ""
    if leadingZeroLimit < d.scale - digits.length then
      sign ++ String.ofList (scientificDigits digits d.scale)
    else
      sign ++ String.ofList (plainDigits digits d.scale.toNat)

end Decimal

end Schemata
