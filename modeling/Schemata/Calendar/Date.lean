import Schemata.Calendar.Reading

/-!
# Dates

Days of the proleptic Gregorian calendar, with a year zero. A `Date` is
always a day that exists; `next` and `previous` walk from day to day, which
is all that a change of time zone asks for.

## Main definitions

* `Date`: A day.
* `Date.ofParts?`: The day of a year, a month and a day number, if it exists.
* `Date.next`, `Date.previous`: The days beside a day.
* `Date.read`, `Date.text`: The written form.
-/

namespace Schemata

/-- Every fourth year has a leap day, except full centuries not divisible by 400. -/
def isLeapYear (year : Int) : Bool :=
  year % 4 == 0 && (year % 100 != 0 || year % 400 == 0)

/-- The number of days of a month; zero for a number that is no month. -/
def daysInMonth (year : Int) : Nat → Nat
  | 1 | 3 | 5 | 7 | 8 | 10 | 12 => 31
  | 4 | 6 | 9 | 11 => 30
  | 2 => if isLeapYear year then 29 else 28
  | _ => 0

theorem daysInMonth_pos (year : Int) (month : Nat) (h : 1 ≤ month ∧ month ≤ 12) :
    1 ≤ daysInMonth year month := by
  obtain ⟨low, high⟩ := h
  have cases : month = 1 ∨ month = 2 ∨ month = 3 ∨ month = 4 ∨ month = 5 ∨ month = 6 ∨
      month = 7 ∨ month = 8 ∨ month = 9 ∨ month = 10 ∨ month = 11 ∨ month = 12 := by omega
  rcases cases with rfl | rfl | rfl | rfl | rfl | rfl | rfl | rfl | rfl | rfl | rfl | rfl <;>
    simp only [daysInMonth] <;> try decide
  split <;> decide

/-- A day of the calendar. -/
structure Date where
  year : Int
  month : Nat
  day : Nat
  month_range : 1 ≤ month ∧ month ≤ 12
  day_range : 1 ≤ day ∧ day ≤ daysInMonth year month
  deriving DecidableEq, Repr

namespace Date

/-- The day of a year, a month and a day number, if there is one. -/
def ofParts? (year : Int) (month day : Nat) : Option Date :=
  if hm : 1 ≤ month ∧ month ≤ 12 then
    if hd : 1 ≤ day ∧ day ≤ daysInMonth year month then some ⟨year, month, day, hm, hd⟩
    else none
  else none

/-- The day after. -/
def next (date : Date) : Date :=
  if h : date.day < daysInMonth date.year date.month then
    ⟨date.year, date.month, date.day + 1, date.month_range, by omega, h⟩
  else if h : date.month < 12 then
    ⟨date.year, date.month + 1, 1, ⟨by omega, h⟩, by omega,
      daysInMonth_pos _ _ ⟨by omega, h⟩⟩
  else ⟨date.year + 1, 1, 1, by decide, by decide, daysInMonth_pos _ _ (by decide)⟩

/-- The day before. -/
def previous (date : Date) : Date :=
  if h : 1 < date.day then
    ⟨date.year, date.month, date.day - 1, date.month_range, by omega,
      Nat.le_trans (Nat.sub_le _ _) date.day_range.2⟩
  else if h : 1 < date.month then
    have range : 1 ≤ date.month - 1 ∧ date.month - 1 ≤ 12 := by
      have := date.month_range; omega
    ⟨date.year, date.month - 1, daysInMonth date.year (date.month - 1), range,
      daysInMonth_pos _ _ range, Nat.le_refl _⟩
  else ⟨date.year - 1, 12, 31, by decide, by decide, by simp [daysInMonth]⟩

/-- The first year that a date can have. -/
def firstYear : Int :=
  -262143

/-- The last year that a date can have. -/
def lastYear : Int :=
  262142

/-- The years that can be read before the calendar is asked. -/
def yearRange : Integer.Range :=
  .signed 32

/-- The year in front: four digits at most, or any number of them behind a sign. -/
def readYear (cs : List Char) : Except Calendar.Fault (Int × List Char) := do
  let (year, rest) ← match cs with
    | '-' :: cs => do
      let (n, rest) ← Calendar.readNumber cs.length cs
      pure (-(n : Int), rest)
    | '+' :: cs => do
      let (n, rest) ← Calendar.readNumber cs.length cs
      pure ((n : Int), rest)
    | cs => do
      let (n, rest) ← Calendar.readNumber 4 cs
      pure ((n : Int), rest)
  if year < yearRange.least ∨ yearRange.greatest < year then .error .outOfRange
  else .ok (year, rest)

/-- The day that a text stands for. Blanks may stand around each part. -/
def read (text : String) : Except Calendar.Fault Date := do
  let (year, cs) ← readYear (Text.skipBlanks text.toList)
  let cs ← Calendar.readChar '-' (Text.skipBlanks cs)
  let (month, cs) ← Calendar.readPart 1 12 cs
  let cs ← Calendar.readChar '-' (Text.skipBlanks cs)
  let (day, cs) ← Calendar.readPart 1 31 cs
  Calendar.readEnd (Text.skipBlanks cs)
  if year < firstYear ∨ lastYear < year then .error .outOfRange
  else
    match ofParts? year month day with
    | some date => .ok date
    | none => .error .outOfRange

/-- The year with at least four digits, and a sign unless it has exactly four. -/
def yearText (year : Int) : String :=
  if 0 ≤ year ∧ year ≤ 9999 then Calendar.padded 4 year.toNat
  else (if year < 0 then "-" else "+") ++ Calendar.padded 4 year.natAbs

/-- The written form, `YYYY-MM-DD`. -/
def text (date : Date) : String :=
  yearText date.year ++ "-" ++ Calendar.padded 2 date.month ++ "-" ++ Calendar.padded 2 date.day

end Date

end Schemata
