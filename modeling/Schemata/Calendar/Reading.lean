import Schemata.Text.Blank
import Schemata.Number.Integer

/-!
# Reading Calendar Texts

What dates, times and timestamps have in common when they are read: the four
reasons for refusal, numbers of a bounded count of digits, and literal
characters. Each step returns its result and the characters behind it.

## Main definitions

* `Fault`: Why a text is not a date, a time or a timestamp.
* `readNumber`: A number of at least one and at most some digits.
* `readChar`: One given character.
* `readNanos`, `readFraction`: The digits of a fraction of a second.
-/

namespace Schemata

namespace Calendar

/-- Why a text is not a date, a time or a timestamp. -/
inductive Fault where
  /-- The text ends too early. -/
  | tooShort
  /-- A character cannot stand where it does. -/
  | invalid
  /-- A number is out of its range. -/
  | outOfRange
  /-- Something follows. -/
  | tooLong
  deriving DecidableEq, Repr

/-- The wording of a fault. -/
def Fault.message : Fault → String
  | .tooShort => "premature end of input"
  | .invalid => "input contains invalid characters"
  | .outOfRange => "input is out of range"
  | .tooLong => "trailing input"

/-- The digits in front, no more than `limit` of them; there must be one. -/
def readDigits (limit : Nat) (cs : List Char) : Except Fault (List Char × List Char) :=
  match cs with
  | [] => .error .tooShort
  | _ =>
    let digits := (cs.take limit).takeWhile Char.isDigit
    if digits = [] then .error .invalid else .ok (digits, cs.drop digits.length)

/-- The number in front, of no more than `limit` digits. -/
def readNumber (limit : Nat) (cs : List Char) : Except Fault (Nat × List Char) := do
  let (digits, rest) ← readDigits limit cs
  return (Integer.digitsValue digits, rest)

/-- The number in front, of no more than two digits and within a range. Blanks in front of
    it are skipped. -/
def readPart (least greatest : Nat) (cs : List Char) : Except Fault (Nat × List Char) := do
  let (n, rest) ← readNumber 2 (Text.skipBlanks cs)
  if n < least ∨ greatest < n then .error .outOfRange else .ok (n, rest)

/-- The given character. -/
def readChar (expected : Char) (cs : List Char) : Except Fault (List Char) :=
  match cs with
  | [] => .error .tooShort
  | c :: rest => if c = expected then .ok rest else .error .invalid

/-- Nothing may follow. -/
def readEnd (cs : List Char) : Except Fault Unit :=
  if cs = [] then .ok () else .error .tooLong

/-- The nanoseconds of a fraction's digits. Digits behind the ninth are passed over. -/
def readNanos (cs : List Char) : Except Fault (Nat × List Char) := do
  let (digits, rest) ← readDigits 9 cs
  return (Integer.digitsValue digits * Nat.pow 10 (9 - digits.length), rest.dropWhile Char.isDigit)

/-- The nanoseconds of a fraction behind a point; without a point there are none. -/
def readFraction : List Char → Except Fault (Nat × List Char)
  | '.' :: cs => readNanos cs
  | cs => .ok (0, cs)

/-- A number with leading zeros up to a width. -/
def padded (width : Nat) (n : Nat) : String :=
  let digits := Integer.digits n
  String.ofList (List.replicate (width - digits.length) '0' ++ digits)

end Calendar

end Schemata
