import Schemata.Calendar.Date
import Schemata.Toml.Basic

/-!
# TOML Words

Booleans, numbers and moments, each written as one word. A moment may also
have a blank between its date and its time.

Digits may be grouped by single underscores. Integers have 64 bits; a number
with a point or an exponent may be small without limit but not large.

## Main definitions

* `word?`: The value of a word.
-/

namespace Schemata

namespace Toml

/-! ### Numbers -/

/-- The digits of a group, without the single underscores between them. -/
def ungroup? (isDigit : Char → Bool) (cs : List Char) : Option (List Char) :=
  let groups := cs.splitOn '_'
  if groups.all fun group => group ≠ [] ∧ group.all isDigit then some groups.flatten else none

/-- The number of some digits in a base. -/
def number (base : Nat) (digits : List Char) : Nat :=
  digits.foldl (fun n c => base * n + ((Integer.digitValue? c).getD (c.toLower.toNat - 87))) 0

/-- The digits of a decimal number; the first is not zero unless it is alone. -/
def decimalDigits? (cs : List Char) : Option (List Char) :=
  match ungroup? Char.isDigit cs with
  | some ('0' :: _ :: _) => none
  | digits => digits

/-- The sign in front, and what follows it. -/
def sign : List Char → Bool × List Char
  | '-' :: rest => (true, rest)
  | '+' :: rest => (false, rest)
  | cs => (false, cs)

/-- An integer in range. -/
def ranged? (n : Int) : Option Toml :=
  let range := Integer.Range.signed 64
  if range.least ≤ n ∧ n ≤ range.greatest then some (.integer n) else none

/-- The digit belongs to a base up to sixteen. -/
def isBaseDigit (base : Nat) (c : Char) : Bool :=
  (c.isDigit && c.toNat - 48 < base) || (base == 16 && 'a' ≤ c.toLower && c.toLower ≤ 'f')

/-- An integer of a base, behind its mark. -/
def based? (base : Nat) (cs : List Char) : Option Toml := do
  let digits ← ungroup? (isBaseDigit base) cs
  ranged? (number base digits)

/-- An integer. -/
def integer? : List Char → Option Toml
  | '0' :: 'x' :: rest => based? 16 rest
  | '0' :: 'o' :: rest => based? 8 rest
  | '0' :: 'b' :: rest => based? 2 rest
  | cs => do
    let (negative, cs) := sign cs
    let n : Int := number 10 (← decimalDigits? cs)
    ranged? (if negative then -n else n)

/-- The exponent of a number, if there is one. -/
def exponent? : List Char → Option (Option Int)
  | [] => some none
  | mark :: rest =>
    if mark = 'e' ∨ mark = 'E' then do
      let (negative, cs) := sign rest
      let n : Int := number 10 (← ungroup? Char.isDigit cs)
      return some (if negative then -n else n)
    else none

/-- The digits behind the point, if there is one. -/
def fraction? : List Char → Option (Option (List Char))
  | [] => some none
  | _ :: digits => (ungroup? Char.isDigit digits).map some

/-- A number with a point, an exponent or both. -/
def decimal? (negative : Bool) (cs : List Char) : Option Binary := do
  let isMark (c : Char) : Bool := c == 'e' || c == 'E'
  let front := cs.takeWhile (!isMark ·)
  let whole ← decimalDigits? (front.takeWhile (· ≠ '.'))
  let part ← fraction? (front.dropWhile (· ≠ '.'))
  let exponent ← exponent? (cs.dropWhile (!isMark ·))
  guard (part.isSome ∨ exponent.isSome)
  let digits := part.getD []
  return Format.double.ofDecimal negative (number 10 (whole ++ digits))
    (exponent.getD 0 - digits.length)

/-- A floating-point number; one too large is refused. -/
def float? (cs : List Char) : Option Toml :=
  let (negative, cs) := sign cs
  match String.ofList cs with
  | "inf" => some (.float (.infinite negative))
  | "nan" => some (.float .nan)
  | _ =>
    match decimal? negative cs with
    | some (.infinite false) => none
    | result => result.map .float

/-! ### Moments -/

/-- The number of two digits. -/
def twoDigits? (a b : Char) : Option Nat := do
  return 10 * (← Integer.digitValue? a) + (← Integer.digitValue? b)

/-- A date in front. -/
def date? : List Char → Option (List Char × List Char)
  | y₁ :: y₂ :: y₃ :: y₄ :: '-' :: m₁ :: m₂ :: '-' :: d₁ :: d₂ :: rest => do
    let year : Nat := 100 * (← twoDigits? y₁ y₂) + (← twoDigits? y₃ y₄)
    let _ ← Date.ofParts? year (← twoDigits? m₁ m₂) (← twoDigits? d₁ d₂)
    return ([y₁, y₂, y₃, y₄, '-', m₁, m₂, '-', d₁, d₂], rest)
  | _ => none

/-- The digits of a second's fraction in front: nine of them count, and zeros at the end do
    not. -/
def secondFraction? : List Char → Option (List Char × List Char)
  | '.' :: rest =>
    let digits := rest.takeWhile Char.isDigit
    let significant := ((digits.take 9).reverse.dropWhile (· == '0')).reverse
    if digits = [] then none
    else some (if significant = [] then [] else '.' :: significant, rest.drop digits.length)
  | cs => some ([], cs)

/-- A time in front. -/
def time? : List Char → Option (List Char × List Char)
  | h₁ :: h₂ :: ':' :: m₁ :: m₂ :: ':' :: s₁ :: s₂ :: rest => do
    guard ((← twoDigits? h₁ h₂) < 24 ∧ (← twoDigits? m₁ m₂) < 60 ∧ (← twoDigits? s₁ s₂) ≤ 60)
    let (fraction, rest) ← secondFraction? rest
    return ([h₁, h₂, ':', m₁, m₂, ':', s₁, s₂] ++ fraction, rest)
  | _ => none

/-- The distance from universal time at the end, if it is given. -/
def offset? : List Char → Option (List Char)
  | [] => some []
  | ['Z'] | ['z'] => some ['Z']
  | [sign, h₁, h₂, ':', m₁, m₂] => do
    let hours ← twoDigits? h₁ h₂
    let minutes ← twoDigits? m₁ m₂
    guard ((sign = '+' ∨ sign = '-') ∧ hours < 24 ∧ minutes < 60)
    let sign := if hours = 0 ∧ minutes = 0 then '+' else sign
    return [sign, h₁, h₂, ':', m₁, m₂]
  | _ => none

/-- A date, a time, or both. -/
def moment? (cs : List Char) : Option Toml :=
  match date? cs with
  | some (date, []) => some (.moment (String.ofList date))
  | some (date, mark :: rest) => do
    guard (mark = 'T' ∨ mark = 't' ∨ mark = ' ')
    let (time, rest) ← time? rest
    return .moment (String.ofList (date ++ 'T' :: time ++ (← offset? rest)))
  | none =>
    match time? cs with
    | some (time, []) => some (.moment (String.ofList time))
    | _ => none

/-! ### Words -/

/-- The value of a word. -/
def word? (cs : List Char) : Option Toml :=
  match String.ofList cs with
  | "true" => some (.boolean true)
  | "false" => some (.boolean false)
  | _ => (moment? cs).or ((float? cs).or (integer? cs))

/-- What a word can be made of. -/
def isWordChar (c : Char) : Bool :=
  c.isAlphanum || c == '+' || c == '-' || c == '_' || c == '.' || c == ':'

/-- The word in front. A date and a time behind one blank are one word. -/
def takeWord (cs : List Char) : List Char × List Char :=
  let first := cs.takeWhile isWordChar
  let rest := cs.dropWhile isWordChar
  match date? first, rest with
  | some (_, []), ' ' :: next :: more =>
    if next.isDigit then
      (first ++ ' ' :: (next :: more).takeWhile isWordChar, (next :: more).dropWhile isWordChar)
    else (first, rest)
  | _, _ => (first, rest)

end Toml

end Schemata
