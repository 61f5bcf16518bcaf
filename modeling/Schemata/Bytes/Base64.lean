import Schemata.Text.Encoding

/-!
# Base64

The standard alphabet with mandatory padding. A text is accepted only if it
is the one encoding of the bytes that it stands for: padding may be neither
missing nor extra, and the bits that the last symbol does not use are zero.

Of several faults the checks below decide which is reported. They look at the
last group apart: it is what remains after as many whole groups of four as
leave at least one byte over, so a text of eight bytes has one whole group in
front of its last group, not two.

## Main definitions

* `encode`: The padded text of a byte list.
* `decode`: The bytes of a text, or the reason it has none.
* `Fault`: Why a text is not base64.
-/

namespace Schemata

namespace Base64

/-- Why a text is not base64. -/
inductive Fault where
  /-- The byte at the position is no symbol, or padding out of place. -/
  | badSymbol (byte : UInt8) (position : Nat)
  /-- The text ends where no encoding can end. -/
  | badLength (position : Nat)
  /-- Symbols and padding do not fill the last group. -/
  | badPadding
  /-- The last symbol has bits that stand for nothing. -/
  | looseBits (byte : UInt8) (position : Nat)
  deriving DecidableEq, Repr

/-- The wording of a fault. -/
def Fault.message : Fault → String
  | .badSymbol byte position =>
    "Invalid symbol " ++ toString byte.toNat ++ ", offset " ++ toString position ++ "."
  | .badLength position => "Invalid input length: " ++ toString position
  | .badPadding => "Invalid padding"
  | .looseBits byte position =>
    "Invalid last symbol " ++ toString byte.toNat ++ ", offset " ++ toString position ++ "."

/-- The padding byte, an equals sign. -/
def pad : UInt8 := 61

/-- The symbol of a six-bit number. -/
def symbol (n : Nat) : UInt8 :=
  if n < 26 then UInt8.ofNat (65 + n)
  else if n < 52 then UInt8.ofNat (71 + n)
  else if n < 62 then UInt8.ofNat (n - 4)
  else if n = 62 then 43
  else 47

/-- The six-bit number of a symbol. -/
def symbolValue? (byte : UInt8) : Option Nat :=
  let n := byte.toNat
  if 65 ≤ n ∧ n ≤ 90 then some (n - 65)
  else if 97 ≤ n ∧ n ≤ 122 then some (n - 71)
  else if 48 ≤ n ∧ n ≤ 57 then some (n + 4)
  else if n = 43 then some 62
  else if n = 47 then some 63
  else none

/-- The symbols of a byte list, padded to whole groups. -/
def encodeBytes : List UInt8 → List UInt8
  | [] => []
  | [a] =>
    [symbol (a.toNat / 4), symbol (a.toNat % 4 * 16), pad, pad]
  | [a, b] =>
    [symbol (a.toNat / 4), symbol (a.toNat % 4 * 16 + b.toNat / 16),
      symbol (b.toNat % 16 * 4), pad]
  | a :: b :: c :: rest =>
    symbol (a.toNat / 4) :: symbol (a.toNat % 4 * 16 + b.toNat / 16) ::
      symbol (b.toNat % 16 * 4 + c.toNat / 64) :: symbol (c.toNat % 64) :: encodeBytes rest

/-- The padded base64 text of a byte list. -/
def encode (bytes : List UInt8) : String :=
  String.ofList ((encodeBytes bytes).map fun b => Char.ofNat b.toNat)

/-- The six-bit numbers of a run of symbols that starts at `position`. -/
def symbolValues (position : Nat) : List UInt8 → Except Fault (List Nat)
  | [] => .ok []
  | b :: rest =>
    match symbolValue? b with
    | none => .error (.badSymbol b position)
    | some v => do
      let values ← symbolValues (position + 1) rest
      return v :: values

/-- The values of the last group. Padding may not stand at either of its first two
    places, and no symbol may follow it. -/
def lastValues (start : Nat) (index : Nat) (firstPad : Option Nat) :
    List UInt8 → Except Fault (List Nat)
  | [] => .ok []
  | b :: rest =>
    if b = pad then
      if index < 2 then .error (.badSymbol pad (start + index))
      else lastValues start (index + 1) (firstPad <|> some index) rest
    else
      match firstPad with
      | some p => .error (.badSymbol pad (start + p))
      | none =>
        match symbolValue? b with
        | none => .error (.badSymbol b (start + index))
        | some v => do
          let values ← lastValues start (index + 1) none rest
          return v :: values

/-- The bytes of whole groups of four values. -/
def groupBytes : List Nat → List UInt8
  | a :: b :: c :: d :: rest =>
    UInt8.ofNat (a * 4 + b / 16) :: UInt8.ofNat (b % 16 * 16 + c / 4) ::
      UInt8.ofNat (c % 4 * 64 + d) :: groupBytes rest
  | _ => []

/-- The bytes of the last group's values and the bits they leave over. -/
def lastBytes : List Nat → List UInt8 × Nat
  | [a, b] => ([UInt8.ofNat (a * 4 + b / 16)], b % 16)
  | [a, b, c] => ([UInt8.ofNat (a * 4 + b / 16), UInt8.ofNat (b % 16 * 16 + c / 4)], c % 4)
  | [a, b, c, d] =>
    ([UInt8.ofNat (a * 4 + b / 16), UInt8.ofNat (b % 16 * 16 + c / 4),
      UInt8.ofNat (c % 4 * 64 + d)], 0)
  | _ => ([], 0)

/-- The number of bytes in front of the last group. -/
def lastStart (length : Nat) : Nat :=
  (length - 1) / 4 * 4

/-- A length that leaves one byte over cannot end in a byte that is neither symbol nor
    padding; this is found before anything else. -/
def checkStray (bytes : List UInt8) : Except Fault Unit :=
  match bytes.getLast? with
  | some b =>
    if bytes.length % 4 = 1 ∧ b ≠ pad ∧ symbolValue? b = none then
      .error (.badSymbol b (bytes.length - 1))
    else .ok ()
  | none => .ok ()

/-- The bytes that a padded text stands for, over bytes. -/
def decodeBytes (bytes : List UInt8) : Except Fault (List UInt8) := do
  checkStray bytes
  -- Padding can only be in the last group, so the groups in front are read without it.
  let start := lastStart bytes.length
  let whole ← symbolValues 0 (bytes.take start)
  let group := bytes.drop start
  let values ← lastValues start 0 none group
  if group ≠ [] ∧ values.length < 2 then
    .error (.badLength (start + values.length))
  if group.length % 4 ≠ 0 then
    .error .badPadding
  let (tail, loose) := lastBytes values
  -- Bits behind the last byte have to be zero.
  if loose ≠ 0 then
    .error (.looseBits ((group[values.length - 1]?).getD pad) (start + values.length - 1))
  return groupBytes whole ++ tail

/-- The bytes that a padded text stands for. -/
def decode (text : String) : Except Fault (List UInt8) :=
  decodeBytes (Text.utf8 text)

end Base64

end Schemata
