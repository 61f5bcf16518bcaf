/-!
# Characters by Code

A character written as the hexadecimal number of its code, with digits of
either case.

## Main definitions

* `hexNumber?`: The number of some hexadecimal digits.
* `ofCode?`: The character of such a number.
-/

namespace Schemata

namespace Text

/-- The value of a hexadecimal digit. -/
def hexDigit? (c : Char) : Option Nat :=
  if '0' ≤ c ∧ c ≤ '9' then some (c.toNat - 48)
  else if 'a' ≤ c ∧ c ≤ 'f' then some (c.toNat - 87)
  else if 'A' ≤ c ∧ c ≤ 'F' then some (c.toNat - 55)
  else none

/-- The character is a hexadecimal digit. -/
def isHexDigit (c : Char) : Bool :=
  (hexDigit? c).isSome

/-- The number of some hexadecimal digits. -/
def hexNumber? (digits : List Char) : Option Nat := do
  return (← digits.mapM hexDigit?).foldl (fun n d => 16 * n + d) 0

/-- The character of some hexadecimal digits, unless they are no code of one. -/
def ofCode? (digits : List Char) : Option Char := do
  let code ← hexNumber? digits
  if code.isValidChar then some (Char.ofNat code) else none

end Text

end Schemata
