/-!
# Bounded Integer Literals

Reading an optional sign and decimal digits into an integer of a bounded
range. Digits are taken from left to right, and the first that cannot be
taken decides the fault: a character that is no digit, or a digit that leads
out of the range. A bad character behind such a digit is never reached.

## Main definitions

* `Range`: The least and the greatest integer that a literal may stand for.
* `Range.clamp`: An integer brought into a range.
* `Range.read`: The integer of a literal, or the reason it has none.
* `digits`, `digitsValue`: The digits of a natural number, and the number of digits.
* `Fault`: Why a text is not a literal of the range.
-/

namespace Schemata

namespace Integer

/-- Why a text is not an integer literal of a range. -/
inductive Fault where
  /-- There is no text at all. -/
  | empty
  /-- A character is no digit, or a sign stands alone. -/
  | badDigit
  /-- The literal stands for an integer above the range. -/
  | tooLarge
  /-- The literal stands for an integer below the range. -/
  | tooSmall
  deriving DecidableEq, Repr

/-- The wording of a fault. -/
def Fault.message : Fault → String
  | .empty => "cannot parse integer from empty string"
  | .badDigit => "invalid digit found in string"
  | .tooLarge => "number too large to fit in target type"
  | .tooSmall => "number too small to fit in target type"

/-- The fault is one of range: up to where it is found, the text is a literal of a number too far
    from zero. -/
def Fault.isRange : Fault → Bool
  | .tooLarge | .tooSmall => true
  | .empty | .badDigit => false

/-- The value of a decimal digit. -/
def digitValue? (c : Char) : Option Nat :=
  if '0' ≤ c ∧ c ≤ '9' then some (c.toNat - 48) else none

/-- A range of integers, both ends included. -/
structure Range where
  least : Int
  greatest : Int
  deriving DecidableEq, Repr

/-- The signed integers of a number of bits. -/
def Range.signed (bits : Nat) : Range :=
  ⟨-Nat.pow 2 (bits - 1), Nat.pow 2 (bits - 1) - 1⟩

/-- The integer of the range that is nearest to an integer. -/
def Range.clamp (range : Range) (n : Int) : Int :=
  max range.least (min range.greatest n)

/-- Take digits away from zero upwards, starting from `total`. -/
def Range.readUp (range : Range) (total : Int) : List Char → Except Fault Int
  | [] => .ok total
  | c :: rest =>
    match digitValue? c with
    | none => .error .badDigit
    | some d =>
      let next := total * 10 + d
      if next ≤ range.greatest then range.readUp next rest else .error .tooLarge

/-- Take digits away from zero downwards, starting from `total`. -/
def Range.readDown (range : Range) (total : Int) : List Char → Except Fault Int
  | [] => .ok total
  | c :: rest =>
    match digitValue? c with
    | none => .error .badDigit
    | some d =>
      let next := total * 10 - d
      if range.least ≤ next then range.readDown next rest else .error .tooSmall

/-- The integer that a literal stands for. -/
def Range.read (range : Range) : List Char → Except Fault Int
  | [] => .error .empty
  | ['+'] | ['-'] => .error .badDigit
  | '+' :: rest => range.readUp 0 rest
  | '-' :: rest => range.readDown 0 rest
  | cs => range.readUp 0 cs

/-- The decimal digits of a natural number, the most significant first. -/
def digits (n : Nat) : List Char :=
  Nat.toDigits 10 n

/-- The natural number that decimal digits stand for. -/
def digitsValue (cs : List Char) : Nat :=
  cs.foldl (fun n c => 10 * n + (c.toNat - 48)) 0

/-- The number of decimal digits; zero has one. -/
def digitCount (n : Nat) : Nat :=
  (digits n).length

end Integer

end Schemata
