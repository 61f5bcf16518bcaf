import Schemata.Error
import Schemata.Value

/-!
# Scalar Types

The fixed set of leaf types that need no parameters, and the texts that they
accept.

## Main definitions

* `ScalarKind`: A scalar type, and the list of `all`.
* `ScalarKind.parse`: The value that a text stands for.
-/

namespace Schemata

/-- A leaf type without parameters. -/
inductive ScalarKind where
  | boolean
  | float
  | double
  | string
  /-- Bytes, written in hexadecimal. -/
  | binaryHex
  /-- Bytes, written in base64. -/
  | binaryBase64
  | date
  /-- An instant in milliseconds. -/
  | dateTime
  /-- An instant in microseconds. -/
  | dateTimeMicros
  /-- A time of day in milliseconds. -/
  | time
  /-- A time of day in microseconds. -/
  | timeMicros
  deriving DecidableEq, Repr

namespace ScalarKind

/-- Every scalar type. -/
def all : List ScalarKind :=
  [.boolean, .float, .double, .string, .binaryHex, .binaryBase64, .date, .dateTime,
    .dateTimeMicros, .time, .timeMicros]

/-- The name under which a type is shown. -/
def name : ScalarKind → String
  | .boolean => "boolean"
  | .float => "float"
  | .double => "double"
  | .string => "string"
  | .binaryHex => "binary_hex"
  | .binaryBase64 => "binary_base64"
  | .date => "date"
  | .dateTime => "datetime"
  | .dateTimeMicros => "datetime_micros"
  | .time => "time"
  | .timeMicros => "time_micros"

/-- The name under which a type is stored: its words are kept apart. -/
def storedName : ScalarKind → String
  | .dateTime => "date_time"
  | .dateTimeMicros => "date_time_micros"
  | kind => kind.name

/-- The nanoseconds of a millisecond. -/
def milli : Nat :=
  1000000

/-- The nanoseconds of a microsecond. -/
def micro : Nat :=
  1000

/-- The truth value of a word, in any mixture of cases. -/
def readBoolean? (text : String) : Option Bool :=
  let word := String.ofList (text.toList.map Char.toLower)
  if word = "true" then some true else if word = "false" then some false else none

/-- The value that a text stands for, or why it stands for none. -/
def read (kind : ScalarKind) (text : String) : Except SyntaxFault Value :=
  match kind with
  | .boolean => (readBoolean? text).elim (.error .boolean) (.ok <| .boolean ·)
  | .float => ((Format.single.read text).map .float).mapError .float
  | .double => ((Format.double.read text).map .double).mapError .float
  | .string => .ok (.string text)
  | .binaryHex => ((Hex.decode text).map .bytes).mapError .hex
  | .binaryBase64 => ((Base64.decode text).map .bytes).mapError .base64
  | .date => ((Date.read text).map .date).mapError .calendar
  | .dateTime => ((Instant.read text).map (.instant <| ·.truncate milli)).mapError .calendar
  | .dateTimeMicros =>
    ((Instant.read text).map (.instant <| ·.truncate micro)).mapError .calendar
  | .time => ((Time.read text).map (.time <| ·.truncate milli)).mapError .calendar
  | .timeMicros => ((Time.read text).map (.time <| ·.truncate micro)).mapError .calendar

/-- The value of a text. Without a text there is no value. -/
def parse (kind : ScalarKind) : Option String → Except SchemaError (Option Value)
  | none => .ok none
  | some text => ((kind.read text).map some).mapError (.malformed kind.name text)

end ScalarKind

end Schemata
