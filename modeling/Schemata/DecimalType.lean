import Schemata.Error
import Schemata.Value

/-!
# Decimal Types

Numeric types with a fixed number of significant digits, some of them behind
the point. A type without fraction also has a width in bits, and a width of
at most 64 is represented by a native integer. All others hold exact
decimals with exactly as many places as the type has.

Reading never rounds. A literal that the type cannot hold is told apart from
a text that is no literal: the first is a loss, the second a syntax fault.

## Main definitions

* `DecimalType`: Precision, scale and width, with what ties them.
* `DecimalType.integer`, `fraction`, `new`, `int`, `long`: The constructors.
* `DecimalType.bitsForPrecision`: The width for a number of digits.
* `DecimalType.fit`: An exact decimal at the scale of a type.
* `DecimalType.parse`: The value that a text stands for.
-/

namespace Schemata

/-- A numeric type of fixed precision and scale. -/
structure DecimalType where
  /-- The number of significant digits. -/
  precision : Nat
  /-- How many of them stand behind the point. -/
  scale : Nat
  /-- The width; only types without fraction have one. -/
  bits : Option Nat
  precision_pos : 0 < precision
  scale_le : scale ≤ precision
  bits_isSome : bits.isSome = decide (scale = 0)
  bits_ne_zero : bits ≠ some 0
  deriving DecidableEq, Repr

/-- How the values of a decimal type are held. -/
inductive Representation where
  | int32
  | int64
  | arbitrary
  deriving DecidableEq, Repr

namespace DecimalType

/-- The type without fraction of a width and a precision. -/
def integer (bits precision : Nat) : Except ConstructionFault DecimalType :=
  if hb : bits = 0 then .error .noBits
  else if hp : precision = 0 then .error .noPrecision
  else
    .ok ⟨precision, 0, some bits, Nat.pos_of_ne_zero hp, Nat.zero_le _, rfl,
      fun h => hb (Option.some.inj h)⟩

/-- The type with a fraction of `scale` digits. -/
def fraction (precision scale : Nat) : Except ConstructionFault DecimalType :=
  if hs : scale = 0 then .error .noFraction
  else if hp : precision = 0 then .error .noPrecision
  else if hle : precision < scale then .error (.scaleExceedsPrecision scale precision)
  else
    .ok ⟨precision, scale, none, Nat.pos_of_ne_zero hp, Nat.le_of_not_lt hle,
      by simp [hs], by simp⟩

/-- The mantissa of the binary logarithm of ten in double precision, in units of
    `2 ^ -51`. -/
def log2Ten : Nat :=
  7480317065143153

/-- The greatest width that can be asked for. -/
def greatestWidth : Nat :=
  4294967295

/-- The width for a number of digits: their product with the binary logarithm of ten,
    rounded to double precision and then up. -/
def bitsForPrecision (precision : Nat) : Nat :=
  match Format.double.nearest false (precision * log2Ten) (Nat.pow 2 51) with
  | .finite number =>
    -- The number as a fraction, which is rounded up.
    let (n, d) := Format.scaled number.mantissa 1 (-number.exponent)
    min ((n + d - 1) / d) greatestWidth
  | _ => greatestWidth

/-- The type of a precision and a scale. Without fraction it is as wide as its digits
    need. -/
def new (precision scale : Nat) : Except ConstructionFault DecimalType :=
  if scale = 0 then
    if precision = 0 then .error .noPrecision
    else integer (bitsForPrecision precision) precision
  else fraction precision scale

/-- The type of 32-bit integers. -/
def int : DecimalType :=
  ⟨10, 0, some 32, by decide, by decide, rfl, by decide⟩

/-- The type of 64-bit integers. -/
def long : DecimalType :=
  ⟨19, 0, some 64, by decide, by decide, rfl, by decide⟩

/-- How values are held. -/
def representation (type : DecimalType) : Representation :=
  match type.bits with
  | some bits => if bits ≤ 32 then .int32 else if bits ≤ 64 then .int64 else .arbitrary
  | none => .arbitrary

/-- The name under which a type is shown. -/
def name (type : DecimalType) : String :=
  match type.bits with
  | some bits => "decimal(" ++ toString type.precision ++ "; " ++ toString bits ++ " bits)"
  | none => "decimal(" ++ toString type.precision ++ "," ++ toString type.scale ++ ")"

/-- The number of digits may not exceed the precision. -/
def checkDigits (type : DecimalType) (count : Nat) : Except LossFault Unit :=
  if type.precision < count then .error (.digits count type.precision) else .ok ()

/-- The decimal at the scale of the type, if no digit is lost. The digits are counted
    before any power of ten is computed, so that an extreme exponent costs nothing.
    Differences from a scale are kept within the scales that there are. -/
def fit (type : DecimalType) (d : Decimal) : Except LossFault Decimal :=
  if d.mantissa = 0 then .ok ⟨0, type.scale⟩
  else
    let digits : Int := d.digitCount
    let whole : Int := Decimal.scaleRange.clamp (digits - d.scale)
    let behind : Int := Decimal.scaleRange.clamp (d.scale - type.scale)
    if ((type.precision - type.scale : Nat) : Int) < whole then
      .error (.integerDigits (type.precision - type.scale))
    else if digits ≤ behind then .error (.fractionDigits type.scale)
    else
      -- What has been counted is close to the scale, so the power of ten is small.
      let scaled := d.rescale type.scale
      if scaled.SameValue d then do
        type.checkDigits scaled.digitCount
        return scaled
      else .error (.fractionDigits type.scale)

/-- Why a text gives no value: it is no literal, or a number that the type cannot hold. -/
inductive Refusal where
  | malformed (fault : SyntaxFault)
  | lossy (fault : LossFault)
  deriving DecidableEq, Repr

/-- The refusal that a fault of a native integer amounts to. -/
def Refusal.ofInteger (fault : Integer.Fault) : Refusal :=
  if fault.isRange then .lossy (.range fault) else .malformed (.integer fault)

/-- The native integer that a text stands for. -/
def readNative (type : DecimalType) (width : Nat) (text : String) : Except Refusal Int := do
  let number ← ((Integer.Range.signed width).read text.toList).mapError Refusal.ofInteger
  (type.checkDigits (Integer.digitCount number.natAbs)).mapError .lossy
  return number

/-- The exact decimal that a text stands for. -/
def readExact (type : DecimalType) (text : String) : Except Refusal Decimal := do
  let d ← (Decimal.read text).mapError (.malformed <| .decimal ·)
  (type.fit d).mapError .lossy

/-- The value that a text stands for. -/
def read (type : DecimalType) (text : String) : Except Refusal Value :=
  match type.representation with
  | .int32 => (type.readNative 32 text).map .int
  | .int64 => (type.readNative 64 text).map .long
  | .arbitrary => (type.readExact text).map .decimal

/-- The error that a refusal amounts to. -/
def Refusal.error (kind input : String) : Refusal → SchemaError
  | .malformed fault => .malformed kind input fault
  | .lossy fault => .lossy kind input fault

/-- The value of a text. Without a text there is no value. -/
def parse (type : DecimalType) : Option String → Except SchemaError (Option Value)
  | none => .ok none
  | some text => ((type.read text).map some).mapError (Refusal.error type.name text)

end DecimalType

end Schemata
