import Schemata.Settings.Value
import Schemata.Text.Blank
import Schemata.Text.Code
import Schemata.Text.Reader

/-!
# JSON5 Documents

JSON as a person may write it: with comments, a comma behind the last item,
keys without quotation marks, strings in apostrophes or over several lines,
and numbers with a plus sign, in hexadecimal, or without digits on one side
of the point.

An integer has 64 bits with its sign, in hexadecimal 32 bits without one.

## Main definitions

* `Json5.valueAt`: A value in front of a text.
* `Json5.read?`: The value of a document.
-/

namespace Schemata

namespace Json5

open Text (Piece Reader)
open Text.Piece (pushChar?)
open Text.Reader (rest marks mark? takeWhile)

/-! ### Between the words -/

/-- A line may end with the character. -/
def isLineEnd (c : Char) : Bool :=
  c == '\n' || c == '\r' || c == '\u2028' || c == '\u2029'

/-- The character may stand between words. -/
def isGap (c : Char) : Bool :=
  (Text.isBlank c && c ≠ '\u0085') || c == '\ufeff'

/-- What follows a comment on several lines. -/
def pastComment? : List Char → Option (List Char)
  | '*' :: '/' :: cs => some cs
  | _ :: cs => pastComment? cs
  | [] => none

/-- What may stand between words. -/
def spacing : Text.Spacing :=
  ⟨isGap, isLineEnd, pastComment?⟩

/-- Skip all blanks and comments. -/
def gap : Reader Unit :=
  spacing.gap

/-! ### Strings -/

/-- The character of an escape with one letter. Digits are none, but for zero. -/
def escaped? (c : Char) : Option Char :=
  match c with
  | 'b' => some '\x08'
  | 'f' => some '\x0c'
  | 'n' => some '\n'
  | 'r' => some '\r'
  | 't' => some '\t'
  | 'v' => some '\x0b'
  | '0' => some '\x00'
  | c => if c.isDigit || c == 'x' || c == 'u' then none else some c

/-- The character of a surrogate pair. -/
def ofPair? (lead trail : List Char) : Option Char := do
  let lead ← Text.hexNumber? lead
  let trail ← Text.hexNumber? trail
  guard (0xD800 ≤ lead ∧ lead ≤ 0xDBFF ∧ 0xDC00 ≤ trail ∧ trail ≤ 0xDFFF)
  return Char.ofNat (0x10000 + (lead - 0xD800) * 0x400 + (trail - 0xDC00))

/-- The text up to a quotation mark, and what follows the mark. -/
def stringText (mark : Char) : List Char → Option Piece
  | '\\' :: '\r' :: '\n' :: cs => stringText mark cs
  | '\\' :: 'x' :: a :: b :: cs => pushChar? (Text.ofCode? [a, b]) (stringText mark cs)
  | '\\' :: 'u' :: a :: b :: c :: d :: '\\' :: 'u' :: e :: f :: g :: h :: cs =>
    match ofPair? [a, b, c, d] [e, f, g, h] with
    | some pair => pushChar? pair (stringText mark cs)
    | none =>
      pushChar? (Text.ofCode? [a, b, c, d])
        (pushChar? (Text.ofCode? [e, f, g, h]) (stringText mark cs))
  | '\\' :: 'u' :: a :: b :: c :: d :: cs =>
    pushChar? (Text.ofCode? [a, b, c, d]) (stringText mark cs)
  | '\\' :: c :: cs =>
    if isLineEnd c then stringText mark cs else pushChar? (escaped? c) (stringText mark cs)
  | c :: cs =>
    if c = mark then some ([], cs)
    else if c = '\\' ∨ isLineEnd c then none
    else pushChar? c (stringText mark cs)
  | [] => none

/-- A string, with its opening mark in front. -/
def string : Reader String := do
  match ← rest with
  | mark :: cs =>
    if mark = '"' ∨ mark = '\'' then
      let (text, cs) ← (stringText mark cs : Option _)
      set cs
      return String.ofList text
    else failure
  | [] => failure

/-! ### Numbers -/

/-- A hexadecimal number behind its mark. -/
def hexadecimal? (digits : List Char) : Option Setting := do
  guard (digits ≠ [])
  let n ← Text.hexNumber? digits
  guard (n < 0x100000000)
  return .integer n

/-- An integer or a number with a point or an exponent. The first digit is not zero unless it
    is alone. -/
def decimal? (word : List Char) : Option Setting :=
  let digits := word.dropWhile fun c => c == '+' || c == '-'
  match digits.takeWhile Char.isDigit, digits with
  | '0' :: _ :: _, _ => none
  | [], c :: _ =>
    if c = '.' then
      match Format.double.read (String.ofList word) with
      | .ok number => some (.float number)
      | .error _ => none
    else none
  | _, _ =>
    if digits.all Char.isDigit then
      match Integer.Range.read (.signed 64) word with
      | .ok n => some (.integer n)
      | .error _ => none
    else
      match Format.double.read (String.ofList word) with
      | .ok number => some (.float number)
      | .error _ => none

/-- The value of a word that is no string. -/
def word? (word : List Char) : Option Setting :=
  match String.ofList word with
  | "null" => some .nothing
  | "true" => some (.boolean true)
  | "false" => some (.boolean false)
  | "Infinity" | "+Infinity" => some (.float (.infinite false))
  | "-Infinity" => some (.float (.infinite true))
  | "NaN" | "+NaN" | "-NaN" => some (.float .nan)
  | _ =>
    match word with
    | '0' :: 'x' :: digits | '0' :: 'X' :: digits => hexadecimal? digits
    | c :: _ => if c.isAlpha then none else decimal? word
    | [] => none

/-- The character can stand in a word. -/
def isWordChar (c : Char) : Bool :=
  c.isAlphanum || c == '+' || c == '-' || c == '.'

/-! ### Values -/

/-- The character can stand in a key without quotation marks. -/
def isKeyChar (c : Char) : Bool :=
  c.isAlphanum || c == '$' || c == '_' ||
    (128 ≤ c.toNat && !isGap c && !isLineEnd c)

/-- A key of an object. -/
def key : Reader String := do
  match ← rest with
  | '"' :: _ | '\'' :: _ => string
  | c :: _ =>
    if c.isDigit then failure
    else
      let key ← takeWhile isKeyChar
      if key = [] then failure else return String.ofList key
  | [] => failure

/-- The items of a list up to its end, with the reading of an item. -/
def items (value : Reader Setting) : (fuel : Nat) → Reader (List Setting)
  | 0 => failure
  | fuel + 1 => do
    gap
    if ← mark? [']'] then return []
    else
      let item ← value
      gap
      if ← mark? [','] then return item :: (← items value fuel)
      else
        marks [']']
        return [item]

/-- The members of an object up to its end, with the reading of a value. -/
def members (value : Reader Setting) : (fuel : Nat) → Reader Setting.Members
  | 0 => failure
  | fuel + 1 => do
    gap
    if ← mark? ['\x7d'] then return []
    else
      let key ← key
      gap
      marks [':']
      gap
      let value' ← value
      gap
      if ← mark? [','] then return (key, value') :: (← members value fuel)
      else
        marks ['\x7d']
        return [(key, value')]

/-- A value, nested no deeper than a bound. -/
def valueAt : (bound : Nat) → Reader Setting
  | 0 => failure
  | bound + 1 => do
    match ← rest with
    | '[' :: cs =>
      set cs
      return .list (← items (valueAt bound) cs.length)
    | '\x7b' :: cs =>
      set cs
      return .table (← members (valueAt bound) cs.length)
    | '"' :: _ | '\'' :: _ => return .text (← string)
    | _ => (word? (← takeWhile isWordChar) : Option Setting)

/-- A document: a value, with blanks and comments around it. -/
def document : Reader Setting := do
  gap
  let value ← valueAt ((← rest).length + 1)
  gap
  return value

/-- The value of a document. -/
def read? (text : String) : Option Setting :=
  document.all? text.toList

end Json5

end Schemata
