import Schemata.Text.Encoding
import Schemata.Text.Quoted

/-!
# Hexadecimal

Bytes as pairs of hexadecimal digits. Writing uses lowercase; reading takes
either case and reports the first byte that is no digit, at its place in the
text.

An odd number of bytes is reported before any bad digit.

## Main definitions

* `encode`: The lowercase digits of a byte list.
* `decode`: The bytes of a text, or the reason it has none.
* `Fault`: Why a text is not hexadecimal.
-/

namespace Schemata

namespace Hex

/-- Why a text is not hexadecimal. -/
inductive Fault where
  /-- The text has an odd number of bytes. -/
  | oddLength
  /-- The byte at the position is not a hexadecimal digit. -/
  | badDigit (byte : UInt8) (position : Nat)
  deriving DecidableEq, Repr

/-- The wording of a fault. -/
def Fault.message : Fault → String
  | .oddLength => "Odd number of digits"
  | .badDigit byte position =>
    "Invalid character " ++ Text.quotedChar (Char.ofNat byte.toNat) ++ " at position " ++
      toString position

/-- The lowercase digit of a number below sixteen. -/
def digit (n : Nat) : Char :=
  if n < 10 then Char.ofNat (48 + n) else Char.ofNat (87 + n)

/-- The number that a digit of either case stands for. -/
def digitValue? (byte : UInt8) : Option Nat :=
  let n := byte.toNat
  if 48 ≤ n ∧ n ≤ 57 then some (n - 48)
  else if 97 ≤ n ∧ n ≤ 102 then some (n - 87)
  else if 65 ≤ n ∧ n ≤ 70 then some (n - 55)
  else none

/-- Two digits for each byte, the high half first. -/
def encodeChars (bytes : List UInt8) : List Char :=
  bytes.flatMap fun b => [digit (b.toNat / 16), digit (b.toNat % 16)]

/-- The lowercase hexadecimal text of a byte list. -/
def encode (bytes : List UInt8) : String :=
  String.ofList (encodeChars bytes)

/-- Read digit pairs, the first of them at `position`. -/
def decodePairs (position : Nat) : List UInt8 → Except Fault (List UInt8)
  | [] => .ok []
  | [_] => .error .oddLength
  | high :: low :: rest =>
    match digitValue? high, digitValue? low with
    | none, _ => .error (.badDigit high position)
    | some _, none => .error (.badDigit low (position + 1))
    | some h, some l => do
      let bytes ← decodePairs (position + 2) rest
      return UInt8.ofNat (16 * h + l) :: bytes

/-- The bytes that a text of digit pairs stands for. -/
def decode (text : String) : Except Fault (List UInt8) :=
  let bytes := Text.utf8 text
  if bytes.length % 2 = 1 then .error .oddLength else decodePairs 0 bytes

end Hex

end Schemata
