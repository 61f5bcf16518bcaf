import Schemata.Calendar.Date
import Schemata.Calendar.Time
import Schemata.Text.Encoding

/-!
# Instants

Points in time, kept as a date and a time of day in UTC. They are read from
timestamps with a mandatory offset, in fixed positions of bytes, and the
offset is taken away at once.

## Main definitions

* `Instant`: A point in time.
* `Instant.ofLocal`: The instant of a local date and time with an offset.
* `Instant.truncate`: The instant cut to a unit of nanoseconds.
* `Instant.read`, `Instant.text`: The written form.
-/

namespace Schemata

/-- A point in time, as date and time of day in UTC. -/
structure Instant where
  date : Date
  time : Time
  deriving DecidableEq, Repr

namespace Instant

/-- The instant of a local date and time that is `offset` seconds ahead of UTC. The
    nanoseconds, and with them a leap second, stay as they are. -/
def ofLocal (date : Date) (time : Time) (offset : Int) : Instant :=
  let shifted := (time.second : Int) - offset
  let day :=
    if shifted < 0 then date.previous
    else if (secondsPerDay : Int) ≤ shifted then date.next
    else date
  let second := (shifted % secondsPerDay).toNat
  have second_lt : second < secondsPerDay := by
    have low := Int.emod_nonneg shifted (by decide : (secondsPerDay : Int) ≠ 0)
    have high := Int.emod_lt_of_pos shifted (by decide : (0 : Int) < secondsPerDay)
    omega
  ⟨day, ⟨second, time.nano, second_lt, time.nano_lt⟩⟩

/-- Cut the nanoseconds to whole units. -/
def truncate (unit : Nat) (instant : Instant) : Instant :=
  ⟨instant.date, instant.time.truncate unit⟩

/-- The characters with the codes of some bytes. Only those below 128 are compared, and
    they are the ASCII characters. -/
def byteChars (bytes : List UInt8) : List Char :=
  bytes.map fun b => Char.ofNat b.toNat

/-- Two decimal digits at the front. -/
def readTwo : List Char → Except Calendar.Fault (Nat × List Char)
  | a :: b :: rest =>
    if a.isDigit && b.isDigit then .ok (Integer.digitsValue [a, b], rest) else .error .invalid
  | _ => .error .tooShort

/-- The separator of date and time. -/
def readSeparator : List Char → Except Calendar.Fault (List Char)
  | c :: rest => if c = 'T' ∨ c = 't' ∨ c = ' ' then .ok rest else .error .invalid
  | [] => .error .tooShort

/-- The hours and minutes behind the sign of an offset, in seconds. -/
def readOffsetParts (cs : List Char) : Except Calendar.Fault (Nat × List Char) := do
  let (hours, cs) ← readTwo cs
  let cs ← Calendar.readChar ':' cs
  let (minutes, cs) ← readTwo cs
  if 60 ≤ minutes then .error .outOfRange else .ok (hours * 3600 + minutes * 60, cs)

/-- The offset in seconds: a `Z`, or a sign, hours and minutes. The sign may be the minus
    sign of mathematics, which is three bytes long. -/
def readOffset : List Char → Except Calendar.Fault (Int × List Char)
  | [] => .error .tooShort
  | 'Z' :: rest | 'z' :: rest => .ok (0, rest)
  | '+' :: rest => do
    let (seconds, rest) ← readOffsetParts rest
    return ((seconds : Int), rest)
  | '-' :: rest | '\xE2' :: '\x88' :: '\x92' :: rest => do
    let (seconds, rest) ← readOffsetParts rest
    return (-(seconds : Int), rest)
  | _ => .error .invalid

/-- The least number of bytes of a timestamp. -/
def leastLength : Nat :=
  19

/-- The day at the front, with four digits for the year. -/
def readDay (cs : List Char) : Except Calendar.Fault (Date × List Char) := do
  let (century, cs) ← readTwo cs
  let (year, cs) ← readTwo cs
  let cs ← Calendar.readChar '-' cs
  let (month, cs) ← readTwo cs
  let cs ← Calendar.readChar '-' cs
  let (day, cs) ← readTwo cs
  match Date.ofParts? (century * 100 + year : Nat) month day with
  | some date => .ok (date, cs)
  | none => .error .outOfRange

/-- The time of day at the front, with a fraction of its second or without. -/
def readTime (cs : List Char) : Except Calendar.Fault (Time × List Char) := do
  let (hour, cs) ← readTwo cs
  let cs ← Calendar.readChar ':' cs
  let (minute, cs) ← readTwo cs
  let cs ← Calendar.readChar ':' cs
  let (second, cs) ← readTwo cs
  let (nano, cs) ← Calendar.readFraction cs
  match Time.ofParts? hour minute second nano with
  | some time => .ok (time, cs)
  | none => .error .outOfRange

/-- The instant that the parts of a timestamp stand for. -/
def readParts (cs : List Char) : Except Calendar.Fault Instant := do
  let (date, cs) ← readDay cs
  let cs ← readSeparator cs
  let (time, cs) ← readTime cs
  let (offset, cs) ← readOffset cs
  Calendar.readEnd cs
  if (secondsPerDay : Int) ≤ offset.natAbs then .error .outOfRange
  else .ok (ofLocal date time offset)

/-- The instant that the bytes of a timestamp stand for. -/
def readBytes (cs : List Char) : Except Calendar.Fault Instant :=
  if cs.length < leastLength then .error .tooShort else readParts cs

/-- The instant that a timestamp stands for. -/
def read (text : String) : Except Calendar.Fault Instant :=
  readBytes (byteChars (Text.utf8 text))

/-- The written form, in UTC. -/
def text (instant : Instant) : String :=
  instant.date.text ++ "T" ++ instant.time.text ++ "+00:00"

end Instant

end Schemata
