import Schemata.Bytes.Hex
import Schemata.Calendar.Instant
import Schemata.Number.Decimal
import Schemata.Number.Shortest

/-!
# Values

The typed values that leaf types read from texts, and how they are shown.

## Main definitions

* `Value`: A value.
* `Value.text`: Its printed form.
-/

namespace Schemata

/-- A value of a scalar, decimal or enum type. -/
inductive Value where
  | boolean (value : Bool)
  | float (value : Binary)
  | double (value : Binary)
  | date (value : Date)
  | instant (value : Instant)
  | time (value : Time)
  | string (value : String)
  | bytes (value : List UInt8)
  | int (value : Int)
  | long (value : Int)
  | decimal (value : Decimal)
  | symbol (value : String)
  deriving DecidableEq, Repr

/-- The printed form of a value. -/
def Value.text : Value → String
  | .boolean value => if value then "true" else "false"
  | .float value => Format.single.text .plain value
  | .double value => Format.double.text .plain value
  | .date value => value.text
  | .instant value => value.text
  | .time value => value.text
  | .string value => value
  | .bytes value => "0x" ++ Hex.encode value
  | .int value => toString value
  | .long value => toString value
  | .decimal value => value.text
  | .symbol value => value

end Schemata
