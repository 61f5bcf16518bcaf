import Schemata.Calendar.Reading

/-!
# Times of Day

A time of day is a whole second and a number of nanoseconds. A leap second
is the fifty-ninth second of a minute with a thousand million nanoseconds
more, so it keeps its minute when the hour changes with the time zone.

Two forms are read, with seconds and without. When both fail, the fault is
that of the form without seconds.

## Main definitions

* `Time`: A time of day.
* `Time.ofParts?`: The time of an hour, a minute, a second and nanoseconds.
* `Time.truncate`: The time cut to a unit of nanoseconds.
* `Time.read`, `Time.text`: The written form.
-/

namespace Schemata

/-- The nanoseconds of a second. -/
def nanosPerSecond : Nat :=
  1000000000

/-- The seconds of a day. -/
def secondsPerDay : Nat :=
  86400

/-- A time of day. -/
structure Time where
  /-- The second of the day. -/
  second : Nat
  /-- Nanoseconds within the second, up to twice as many in a leap second. -/
  nano : Nat
  second_lt : second < secondsPerDay
  nano_lt : nano < 2 * nanosPerSecond
  deriving DecidableEq, Repr

namespace Time

/-- The time of an hour, a minute, a second up to 60 and nanoseconds of that second. -/
def ofParts? (hour minute second nano : Nat) : Option Time :=
  if h : hour < 24 ∧ minute < 60 ∧ second ≤ 60 ∧ nano < nanosPerSecond then
    if second = 60 then
      some ⟨hour * 3600 + minute * 60 + 59, nanosPerSecond + nano,
        by simp only [secondsPerDay]; omega, by omega⟩
    else if h60 : second < 60 then
      some ⟨hour * 3600 + minute * 60 + second, nano,
        by simp only [secondsPerDay]; omega, by omega⟩
    else none
  else none

/-- Cut the nanoseconds to whole units. -/
def truncate (unit : Nat) (time : Time) : Time :=
  ⟨time.second, time.nano - time.nano % unit, time.second_lt,
    Nat.lt_of_le_of_lt (Nat.sub_le _ _) time.nano_lt⟩

/-- The time in the form with seconds and an optional fraction. -/
def readWithSeconds (cs : List Char) : Except Calendar.Fault Time := do
  let (hour, cs) ← Calendar.readPart 0 23 cs
  let cs ← Calendar.readChar ':' cs
  let (minute, cs) ← Calendar.readPart 0 59 cs
  let cs ← Calendar.readChar ':' cs
  let (second, cs) ← Calendar.readPart 0 60 cs
  let (nano, cs) ← Calendar.readFraction cs
  Calendar.readEnd cs
  match ofParts? hour minute second nano with
  | some time => .ok time
  | none => .error .outOfRange

/-- The time in the form without seconds. -/
def readMinutes (cs : List Char) : Except Calendar.Fault Time := do
  let (hour, cs) ← Calendar.readPart 0 23 cs
  let cs ← Calendar.readChar ':' cs
  let (minute, cs) ← Calendar.readPart 0 59 cs
  Calendar.readEnd cs
  match ofParts? hour minute 0 0 with
  | some time => .ok time
  | none => .error .outOfRange

/-- The time of day that a text stands for. -/
def read (text : String) : Except Calendar.Fault Time :=
  match readWithSeconds text.toList with
  | .ok time => .ok time
  | .error _ => readMinutes text.toList

/-- The second within its minute as written; a leap second is written as 60. -/
def shownSecond (time : Time) : Nat :=
  if nanosPerSecond ≤ time.nano then time.second % 60 + 1 else time.second % 60

/-- The fraction of a second with the fewest of three, six or nine digits. -/
def fractionText (nano : Nat) : String :=
  if nano = 0 then ""
  else if nano % 1000000 = 0 then "." ++ Calendar.padded 3 (nano / 1000000)
  else if nano % 1000 = 0 then "." ++ Calendar.padded 6 (nano / 1000)
  else "." ++ Calendar.padded 9 nano

/-- The written form, `HH:MM:SS` and a fraction if there is one. -/
def text (time : Time) : String :=
  Calendar.padded 2 (time.second / 3600) ++ ":" ++
    Calendar.padded 2 (time.second / 60 % 60) ++ ":" ++
    Calendar.padded 2 time.shownSecond ++ fractionText (time.nano % nanosPerSecond)

end Time

end Schemata
