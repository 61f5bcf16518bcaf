import Schemata.Json.Basic
import Schemata.Number.Scaling
import Schemata.Text.Code

/-!
# Reading JSON

Documents from text, with the place of the first fault. The reader keeps a
`Cursor`: the characters still to come, the line, and the number of bytes
already read in that line. A fault points either at the byte that was found
where another was expected, or at the last byte that was consumed; in both
cases the column counts bytes, and it is zero right behind a line break.

Lists and objects may nest to a depth of 127. Of the digits of a number those
count that fit into 64 bits; the others in front of the point stand for zeros.

## Main definitions

* `Cursor`: A place in a text.
* `Json.Significand`: What the digits of a number amount to.
* `Json.Fault`: What is wrong, and where.
* `Json.read`: The document of a text.
-/

namespace Schemata

/-- A place in a text that is being read. -/
structure Cursor where
  /-- The characters from here on. -/
  rest : List Char
  /-- The line, counted from one. -/
  line : Nat
  /-- The number of bytes in front of the place in its line. -/
  column : Nat
  deriving DecidableEq, Repr

namespace Cursor

/-- The start of a text. -/
def start (text : String) : Cursor :=
  ⟨text.toList, 1, 0⟩

/-- The place behind one character. -/
def past (c : Char) (rest : List Char) (cursor : Cursor) : Cursor :=
  if c = '\n' then ⟨rest, cursor.line + 1, 0⟩ else ⟨rest, cursor.line, cursor.column + c.utf8Size⟩

/-- The place behind the next character. -/
def next (cursor : Cursor) : Cursor :=
  match cursor.rest with
  | [] => cursor
  | c :: rest => cursor.past c rest

/-- The place behind the blanks that a document may hold between tokens. -/
def skipBlanks (cursor : Cursor) : Cursor :=
  go cursor.rest cursor
where
  /-- Move over the blanks in front of the characters. -/
  go : List Char → Cursor → Cursor
    | [], cursor => cursor
    | c :: rest, cursor =>
      if c = ' ' ∨ c = '\t' ∨ c = '\r' ∨ c = '\n' then go rest (cursor.past c rest) else cursor

/-- The place behind a number of bytes; `none` if there are not so many. The place need
    not fall between two characters, so only its line and column are meant. -/
def pastBytes (count : Nat) : List Char → Cursor → Option Cursor
  | [], cursor => if count = 0 then some cursor else none
  | c :: rest, cursor =>
    if count = 0 then some cursor
    else if c.utf8Size ≤ count then pastBytes (count - c.utf8Size) rest (cursor.past c rest)
    else some ⟨rest, cursor.line, cursor.column + count⟩

/-- The place behind everything. -/
def finish (cursor : Cursor) : Cursor :=
  go cursor.rest cursor
where
  /-- Move over the characters. -/
  go : List Char → Cursor → Cursor
    | [], cursor => cursor
    | c :: rest, cursor => go rest (cursor.past c rest)

end Cursor

namespace Json

/-- What can be wrong with the text of a document. -/
inductive FaultKind where
  | eofInValue
  | eofInObject
  | eofInList
  | eofInString
  | expectedValue
  | expectedIdent
  | expectedColon
  | expectedCommaOrBrace
  | expectedCommaOrBracket
  | keyNotString
  | trailingComma
  | trailingCharacters
  | invalidNumber
  | numberOutOfRange
  | invalidEscape
  | endOfHexEscape
  | loneSurrogate
  | controlCharacter
  | tooDeep
  deriving DecidableEq, Repr

/-- The wording of a fault, without its place. -/
def FaultKind.message : FaultKind → String
  | .eofInValue => "EOF while parsing a value"
  | .eofInObject => "EOF while parsing an object"
  | .eofInList => "EOF while parsing a list"
  | .eofInString => "EOF while parsing a string"
  | .expectedValue => "expected value"
  | .expectedIdent => "expected ident"
  | .expectedColon => "expected \x60:\x60"
  | .expectedCommaOrBrace => "expected \x60,\x60 or \x60\x7d\x60"
  | .expectedCommaOrBracket => "expected \x60,\x60 or \x60]\x60"
  | .keyNotString => "key must be a string"
  | .trailingComma => "trailing comma"
  | .trailingCharacters => "trailing characters"
  | .invalidNumber => "invalid number"
  | .numberOutOfRange => "number out of range"
  | .invalidEscape => "invalid escape"
  | .endOfHexEscape => "unexpected end of hex escape"
  | .loneSurrogate => "lone leading surrogate in hex escape"
  | .controlCharacter => "control character (\\u0000-\\u001F) found while parsing a string"
  | .tooDeep => "recursion limit exceeded"

/-- What is wrong with a text, and where. -/
structure Fault where
  kind : FaultKind
  line : Nat
  column : Nat
  deriving DecidableEq, Repr

/-- The wording of a fault. -/
def Fault.message (fault : Fault) : String :=
  fault.kind.message ++ " at line " ++ toString fault.line ++ " column " ++ toString fault.column

/-- A fault at the last byte read. -/
def failAt (cursor : Cursor) (kind : FaultKind) : Except Fault α :=
  .error ⟨kind, cursor.line, cursor.column⟩

/-- A fault at the next byte, which was read to find it. -/
def failPast (cursor : Cursor) (kind : FaultKind) : Except Fault α :=
  match cursor.rest with
  | [] => failAt cursor kind
  | '\n' :: _ => .error ⟨kind, cursor.line + 1, 0⟩
  | _ :: _ => .error ⟨kind, cursor.line, cursor.column + 1⟩

/-- A fault at the next byte, or at the end of the text with another wording. -/
def failNext (cursor : Cursor) (found ended : FaultKind) : Except Fault α :=
  if cursor.rest = [] then failAt cursor ended else failPast cursor found

/-! ### Words and numbers -/

/-- The rest of `null`, `true` or `false`. -/
def readWord (value : Json) : List Char → Cursor → Except Fault (Json × Cursor)
  | [], cursor => .ok (value, cursor)
  | w :: word, cursor =>
    match cursor.rest with
    | c :: _ => if c = w then readWord value word cursor.next else failPast cursor .expectedIdent
    | [] => failAt cursor .eofInValue

/-- The digits in front and the place behind them. -/
def readDigits (cursor : Cursor) : List Char × Cursor :=
  let digits := cursor.rest.takeWhile Char.isDigit
  (digits, ⟨cursor.rest.dropWhile Char.isDigit, cursor.line, cursor.column + digits.length⟩)

/-- What the digits of a number amount to, `mantissa * 10 ^ exponent`. -/
structure Significand where
  negative : Bool
  mantissa : Nat
  exponent : Int
  deriving DecidableEq, Repr

namespace Significand

/-- The greatest mantissa. Digits that it has no room for are left out. -/
def greatest : Nat :=
  0xffffffffffffffff

/-- A mantissa with some digits added to it as long as there is room, and the number of digits
    left out. -/
def gather (mantissa : Nat) : List Char → Nat × Nat
  | [] => (mantissa, 0)
  | c :: rest =>
    let next := 10 * mantissa + (c.toNat - 48)
    if next ≤ greatest then gather next rest else (mantissa, rest.length + 1)

/-- The digits in front of a point. Those left out still count as places. -/
def ofDigits (negative : Bool) (digits : List Char) : Significand :=
  let (mantissa, left) := gather 0 digits
  ⟨negative, mantissa, left⟩

/-- The digits behind the point added. -/
def addPlaces (number : Significand) (digits : List Char) : Significand :=
  let (mantissa, left) := gather number.mantissa digits
  { number with mantissa, exponent := number.exponent - (digits.length - left : Nat) }

end Significand

/-- The greatest exponent that is told apart from an endless one. -/
def exponentLimit : Nat :=
  2147483647

/-- The digits of an exponent. Past the limit the number is out of range, unless it is
    zero or the exponent makes it so; then the remaining digits are passed over. -/
def readExponentDigits (isZero up : Bool) (total : Nat) :
    List Char → Cursor → Except Fault (Option Nat × Cursor)
  | [], cursor => .ok (some total, cursor)
  | c :: rest, cursor =>
    if c.isDigit then
      let next := 10 * total + (c.toNat - 48)
      let past := cursor.past c rest
      if exponentLimit < next then
        if up && !isZero then failAt past .numberOutOfRange
        else .ok (none, (readDigits past).2)
      else readExponentDigits isZero up next rest past
    else .ok (some total, cursor)

/-- The floating-point number of some digits. -/
def finishFloat (number : Significand) (cursor : Cursor) : Except Fault (Json × Cursor) :=
  match Scaling.ofDecimal number.negative number.mantissa number.exponent with
  | .finite value => .ok (.float value, cursor)
  | _ => failAt cursor .numberOutOfRange

/-- The exponent of a number, behind its mark. -/
def readExponent (number : Significand) (cursor : Cursor) : Except Fault (Json × Cursor) :=
  let (up, cursor) :=
    match cursor.rest with
    | '+' :: _ => (true, cursor.next)
    | '-' :: _ => (false, cursor.next)
    | _ => (true, cursor)
  match cursor.rest with
  | [] => failAt cursor .eofInValue
  | c :: _ =>
    if c.isDigit then do
      match ← readExponentDigits (number.mantissa = 0) up 0 cursor.rest cursor with
      | (none, cursor) => .ok (.float (Format.double.zero number.negative), cursor)
      | (some exponent, cursor) =>
        let exponent : Int := if up then exponent else -exponent
        finishFloat { number with exponent := number.exponent + exponent } cursor
    else failPast cursor .invalidNumber

/-- The least integer that a document keeps as an integer. -/
def leastInteger : Int :=
  -0x8000000000000000

/-- A number without fraction and exponent. Negative zero and what is out of range are
    floating-point numbers. -/
def finishInteger (number : Significand) (cursor : Cursor) : Except Fault (Json × Cursor) :=
  let value : Int := if number.negative then -number.mantissa else number.mantissa
  if number.exponent ≠ 0 ∨ (number.negative ∧ value = 0) ∨ value < leastInteger then
    finishFloat number cursor
  else .ok (.int value, cursor)

/-- The exponent of a number if one follows its digits, or else what ends there. -/
def orExponent (number : Significand) (cursor : Cursor) (ending : Except Fault (Json × Cursor)) :
    Except Fault (Json × Cursor) :=
  match cursor.rest with
  | 'e' :: _ | 'E' :: _ => readExponent number cursor.next
  | _ => ending

/-- What follows the digits in front of the point. -/
def readFraction (number : Significand) (cursor : Cursor) : Except Fault (Json × Cursor) :=
  match cursor.rest with
  | '.' :: _ =>
    let (digits, past) := readDigits cursor.next
    if digits = [] then
      if past.rest = [] then failAt past .eofInValue else failPast past .invalidNumber
    else
      let number := number.addPlaces digits
      orExponent number past (finishFloat number past)
  | _ => orExponent number cursor (finishInteger number cursor)

/-- A number behind its sign. No digit may follow a leading zero. -/
def readNumber (negative : Bool) (cursor : Cursor) : Except Fault (Json × Cursor) :=
  match readDigits cursor with
  | ([], _) => failNext cursor .invalidNumber .eofInValue
  | ('0' :: _ :: _, _) => failPast cursor.next .invalidNumber
  | (digits, past) => readFraction (.ofDigits negative digits) past

/-! ### Strings -/

/-- Four hexadecimal digits; four bytes are taken before they are looked at. -/
def readHexFour (cursor : Cursor) : Except Fault (Nat × Cursor) :=
  let bad : Except Fault (Nat × Cursor) :=
    match cursor.pastBytes 4 cursor.rest with
    | none => failAt cursor.finish .eofInString
    | some past => failAt past .invalidEscape
  match cursor.rest with
  | a :: b :: c :: d :: rest =>
    match Text.hexNumber? [a, b, c, d] with
    | some n => .ok (n, ⟨rest, cursor.line, cursor.column + 4⟩)
    | none => bad
  | _ => bad

/-- The second half of a surrogate pair: a backslash, the letter and four digits. -/
def readTrail (lead : Nat) (cursor : Cursor) : Except Fault (Char × Cursor) :=
  match cursor.rest with
  | [] => failAt cursor .eofInString
  | '\\' :: _ =>
    let cursor := cursor.next
    match cursor.rest with
    | [] => failAt cursor .eofInString
    | 'u' :: _ => do
      let (trail, cursor) ← readHexFour cursor.next
      if trail < 0xDC00 ∨ 0xDFFF < trail then failAt cursor .loneSurrogate
      else
        .ok (Char.ofNat (0x10000 + (lead - 0xD800) * 0x400 + (trail - 0xDC00)), cursor)
    | _ => failPast cursor .endOfHexEscape
  | _ => failPast cursor .endOfHexEscape

/-- The character of an escape, behind its letter. -/
def readUnicode (cursor : Cursor) : Except Fault (Char × Cursor) := do
  let (code, cursor) ← readHexFour cursor
  if 0xDC00 ≤ code ∧ code ≤ 0xDFFF then failAt cursor .loneSurrogate
  else if 0xD800 ≤ code ∧ code ≤ 0xDBFF then readTrail code cursor
  else .ok (Char.ofNat code, cursor)

/-- The character that a one-letter escape stands for. -/
def escapeOf? (c : Char) : Option Char :=
  match c with
  | '"' => some '"'
  | '\\' => some '\\'
  | '/' => some '/'
  | 'b' => some '\x08'
  | 'f' => some '\x0c'
  | 'n' => some '\n'
  | 'r' => some '\r'
  | 't' => some '\t'
  | _ => none

/-- An escape, behind its backslash. -/
def readEscape (cursor : Cursor) : Except Fault (Char × Cursor) :=
  match cursor.rest with
  | [] => failAt cursor .eofInString
  | 'u' :: _ => readUnicode cursor.next
  | c :: _ =>
    match escapeOf? c with
    | some e => .ok (e, cursor.next)
    | none => failPast cursor .invalidEscape

/-- A string behind its opening quotation mark; `done` holds what was read, reversed. -/
def readString : (fuel : Nat) → List Char → Cursor → Except Fault (String × Cursor)
  | 0, _, cursor => failAt cursor .eofInString
  | fuel + 1, done, cursor =>
    match cursor.rest with
    | [] => failAt cursor .eofInString
    | '"' :: _ => .ok (String.ofList done.reverse, cursor.next)
    | '\\' :: _ => do
      let (c, cursor) ← readEscape cursor.next
      readString fuel (c :: done) cursor
    | c :: _ =>
      if c.toNat < 0x20 then failPast cursor .controlCharacter
      else readString fuel (c :: done) cursor.next

/-! ### Documents -/

/-- The place behind the next item's comma, or `none` at the end of the list. -/
def nextItem (first : Bool) (cursor : Cursor) : Except Fault (Bool × Cursor) :=
  let cursor := cursor.skipBlanks
  match cursor.rest with
  | [] => failAt cursor .eofInList
  | ']' :: _ => .ok (false, cursor.next)
  | ',' :: _ =>
    if first then .ok (true, cursor)
    else
      let cursor := cursor.next.skipBlanks
      match cursor.rest with
      | [] => failAt cursor .eofInValue
      | ']' :: _ => failPast cursor .trailingComma
      | _ => .ok (true, cursor)
  | _ => if first then .ok (true, cursor) else failPast cursor .expectedCommaOrBracket

/-- The place of the next key's opening quotation mark, or `none` at the end of the
    object. -/
def nextKey (first : Bool) (cursor : Cursor) : Except Fault (Bool × Cursor) :=
  let cursor := cursor.skipBlanks
  match cursor.rest with
  | [] => failAt cursor .eofInObject
  | '}' :: _ => .ok (false, cursor.next)
  | c :: _ =>
    if first then
      if c = '"' then .ok (true, cursor.next) else failPast cursor .keyNotString
    else if c = ',' then
      let cursor := cursor.next.skipBlanks
      match cursor.rest with
      | [] => failAt cursor .eofInValue
      | '"' :: _ => .ok (true, cursor.next)
      | '}' :: _ => failPast cursor .trailingComma
      | _ => failPast cursor .keyNotString
    else failPast cursor .expectedCommaOrBrace

/-- The place behind the colon between a key and its value. -/
def readColon (cursor : Cursor) : Except Fault Cursor :=
  let cursor := cursor.skipBlanks
  match cursor.rest with
  | ':' :: _ => .ok cursor.next
  | _ => failNext cursor .expectedColon .eofInObject

mutual

/-- A document. `depth` lists and objects may still be opened. -/
def readValue : (fuel depth : Nat) → Cursor → Except Fault (Json × Cursor)
  | 0, _, cursor => failAt cursor .eofInValue
  | fuel + 1, depth, cursor =>
    let cursor := cursor.skipBlanks
    match cursor.rest with
    | [] => failAt cursor .eofInValue
    | 'n' :: _ => readWord .null "ull".toList cursor.next
    | 't' :: _ => readWord (.bool true) "rue".toList cursor.next
    | 'f' :: _ => readWord (.bool false) "alse".toList cursor.next
    | '-' :: _ => readNumber true cursor.next
    | '"' :: _ => do
      let (text, cursor) ← readString cursor.rest.length [] cursor.next
      return (.string text, cursor)
    | '[' :: _ =>
      match depth with
      | 0 => failPast cursor .tooDeep
      | depth + 1 => readItems fuel depth true [] cursor.next
    | '{' :: _ =>
      match depth with
      | 0 => failPast cursor .tooDeep
      | depth + 1 => readMembers fuel depth true [] cursor.next
    | c :: _ => if c.isDigit then readNumber false cursor else failPast cursor .expectedValue

/-- The items of a list; `done` holds those read, reversed. -/
def readItems : (fuel depth : Nat) → Bool → List Json → Cursor → Except Fault (Json × Cursor)
  | 0, _, _, _, cursor => failAt cursor .eofInList
  | fuel + 1, depth, first, done, cursor => do
    let (more, cursor) ← nextItem first cursor
    if more then
      let (item, cursor) ← readValue fuel depth cursor
      readItems fuel depth false (item :: done) cursor
    else .ok (.array done.reverse, cursor)

/-- The members of an object; `done` holds those read, sorted. -/
def readMembers :
    (fuel depth : Nat) → Bool → List (String × Json) → Cursor → Except Fault (Json × Cursor)
  | 0, _, _, _, cursor => failAt cursor .eofInObject
  | fuel + 1, depth, first, done, cursor => do
    let (more, cursor) ← nextKey first cursor
    if more then
      let (key, cursor) ← readString (cursor.rest.length + 1) [] cursor
      let cursor ← readColon cursor
      let (value, cursor) ← readValue fuel depth cursor
      readMembers fuel depth false (insert key value done) cursor
    else .ok (.object done, cursor)

end

/-- The depth to which lists and objects may nest. -/
def depthLimit : Nat :=
  127

/-- The document of a text. Every step reads at least one character, or is followed by one
    that does, so twice the length is fuel enough. -/
def read (text : String) : Except Fault Json := do
  let (json, cursor) ← readValue (2 * text.length + 2) depthLimit (Cursor.start text)
  let cursor := cursor.skipBlanks
  if cursor.rest = [] then .ok json else failPast cursor .trailingCharacters

end Json

end Schemata
