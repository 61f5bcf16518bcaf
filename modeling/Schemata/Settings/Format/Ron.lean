import Schemata.Settings.Value
import Schemata.Text.Code
import Schemata.Text.Reader

/-!
# RON Documents

An object notation whose structs have their members in parentheses, after a
name that may be left out. Without keys the parentheses hold a list; without
anything they stand for nothing. Maps are in braces, and their keys are any
texts. A value may be optional: `Some` holds one, `None` holds nothing.

Comments run to the end of the line, or are nested between their marks. A
document may start with attributes, which do not change its values.

## Main definitions

* `Ron.valueAt`: A value in front of a text.
* `Ron.read?`: The value of a document.
-/

namespace Schemata

namespace Ron

open Text (Piece Reader)
open Text.Reader (rest marks mark? takeWhile)

/-! ### Between the words -/

/-- The character may stand between words. -/
def isGap (c : Char) : Bool :=
  c == ' ' || c == '\t' || c == '\n' || c == '\r'

/-- What follows a comment that is open to a depth. -/
def pastComment? : (depth : Nat) → List Char → Option (List Char)
  | 0, cs => some cs
  | depth + 1, '*' :: '/' :: cs => pastComment? depth cs
  | depth, '/' :: '*' :: cs => pastComment? (depth + 1) cs
  | depth, _ :: cs => pastComment? depth cs
  | _, [] => none

/-- What may stand between words. -/
def spacing : Text.Spacing :=
  ⟨isGap, (· == '\n'), pastComment? 1⟩

/-- Skip all blanks and comments. -/
def gap : Reader Unit :=
  spacing.gap

/-! ### Strings -/

/-- The character of an escape with one letter. -/
def escaped? : Char → Option Char
  | '\'' => some '\''
  | '"' => some '"'
  | '\\' => some '\\'
  | 'n' => some '\n'
  | 'r' => some '\r'
  | 't' => some '\t'
  | '0' => some '\x00'
  | _ => none

/-- The character behind a backslash, and what follows it. -/
def escape? : List Char → Option (Char × List Char)
  | 'x' :: a :: b :: cs => (Text.ofCode? [a, b]).map (·, cs)
  | 'u' :: '\x7b' :: cs =>
    let digits := cs.takeWhile (· ≠ '\x7d')
    if digits = [] ∨ 6 < digits.length then none
    else (Text.ofCode? digits).map (·, cs.drop (digits.length + 1))
  | c :: cs => (escaped? c).map (·, cs)
  | [] => none

/-- The text up to a quotation mark, and what follows the mark. -/
def stringText : (fuel : Nat) → List Char → Option Piece
  | 0, _ => none
  | _, [] => none
  | _, '"' :: cs => some ([], cs)
  | fuel + 1, '\\' :: cs => do
    let (c, cs) ← escape? cs
    Piece.push [c] (stringText fuel cs)
  | fuel + 1, c :: cs => Piece.push [c] (stringText fuel cs)

/-- The text up to some closing marks, and what follows them. -/
def rawText (closing : List Char) : List Char → Option Piece
  | [] => none
  | c :: cs =>
    if closing.isPrefixOf (c :: cs) then some ([], (c :: cs).drop closing.length)
    else Piece.push [c] (rawText closing cs)

/-- A string without escapes, behind its letter: between as many number signs as there are in
    front. -/
def raw : Reader String := do
  let signs ← takeWhile (· == '#')
  marks ['"']
  let (text, cs) ← (rawText ('"' :: signs) (← rest) : Option _)
  set cs
  return String.ofList text

/-- A string behind its opening mark. -/
def string : Reader String := do
  let cs ← rest
  let (text, cs) ← (stringText (cs.length + 1) cs : Option _)
  set cs
  return String.ofList text

/-- A character behind its opening mark. -/
def character : Reader String := do
  let (c, cs) ←
    match ← rest with
    | '\\' :: cs => (escape? cs : Option _)
    | c :: cs => if c = '\'' then failure else pure (c, cs)
    | [] => failure
  set cs
  marks ['\'']
  return String.ofList [c]

/-! ### Numbers -/

/-- The number of some digits in a base, with underscores between them. -/
def digits? (base : Nat) (cs : List Char) : Option Nat := do
  guard (cs.head? ≠ some '_')
  let values ← (cs.filter (· ≠ '_')).mapM Text.hexDigit?
  guard (values ≠ [] ∧ values.all (· < base))
  return values.foldl (fun n d => base * n + d) 0

/-- An unsigned integer. -/
def natural? : List Char → Option Nat
  | '0' :: 'x' :: cs => digits? 16 cs
  | '0' :: 'b' :: cs => digits? 2 cs
  | '0' :: 'o' :: cs => digits? 8 cs
  | cs => digits? 10 cs

/-- A number. An integer out of the range of 64 bits is a floating-point number. -/
def number? (word : List Char) : Option Setting :=
  let (negative, cs) :=
    match word with
    | '-' :: cs => (true, cs)
    | '+' :: cs => (false, cs)
    | cs => (false, cs)
  let n : Option Int := (natural? cs).map fun n => if negative then -n else n
  let range := Integer.Range.signed 64
  match n.filter fun n => range.least ≤ n ∧ n ≤ range.greatest with
  | some n => some (.integer n)
  | none =>
    match Format.double.read (String.ofList (word.filter (· ≠ '_'))) with
    | .ok number => some (.float number)
    | .error _ => none

/-- The character can stand in a number. -/
def isNumberChar (c : Char) : Bool :=
  c.isAlphanum || c == '_' || c == '.' || c == '+' || c == '-'

/-! ### Values -/

/-- The character can stand in a name. -/
def isNameChar (c : Char) : Bool :=
  c.isAlphanum || c == '_'

/-- A name; perhaps behind marks that make a name of any word. -/
def name : Reader String := do
  let _ ← mark? ['r', '#']
  let cs ← takeWhile isNameChar
  match cs with
  | [] => failure
  | c :: _ => if c.isDigit then failure else return String.ofList cs

/-- The items of a list up to its end, with the reading of an item. -/
def items (value : Reader Setting) (closing : Char) : (fuel : Nat) → Reader (List Setting)
  | 0 => failure
  | fuel + 1 => do
    gap
    if ← mark? [closing] then return []
    else
      let item ← value
      gap
      if ← mark? [','] then return item :: (← items value closing fuel)
      else
        marks [closing]
        return [item]

/-- The members of a struct or a map up to its end, with the readings of a key and a value. -/
def members (key : Reader String) (value : Reader Setting) (closing : Char) :
    (fuel : Nat) → Reader Setting.Members
  | 0 => failure
  | fuel + 1 => do
    gap
    if ← mark? [closing] then return []
    else
      let key' ← key
      gap
      marks [':']
      gap
      let value' ← value
      gap
      if ← mark? [','] then return (key', value') :: (← members key value closing fuel)
      else
        marks [closing]
        return [(key', value')]

/-- Members in the order of their keys. -/
def sorted (members : Setting.Members) : Setting :=
  .table (members.mergeSort fun a b => a.1 ≤ b.1)

/-- The key of a map, with the reading of a value. -/
def mapKey (value : Reader Setting) : Reader String := do
  match ← value with
  | .text key => return key
  | _ => failure

/-- The first word is a name with a colon behind it. -/
def startsMember : Reader Bool := do
  let found : Reader Unit := do
    let _ ← name
    gap
    marks [':']
  return (found.run (← rest)).isSome

/-- What is in parentheses, behind the opening one, with the reading of a value. Nothing at
    all stands for nothing. -/
def struct (value : Reader Setting) : Reader Setting := do
  if ← mark? [')'] then return .nothing
  else
    gap
    let fuel := (← rest).length
    if ← startsMember then return sorted (← members name value ')' fuel)
    else return .list (← items value ')' fuel)

/-- What a name stands for, with the reading of a value. -/
def named (value : Reader Setting) (word : String) : Reader Setting := do
  match word with
  | "true" => return .boolean true
  | "false" => return .boolean false
  | "None" => return .nothing
  | "inf" => return .float (.infinite false)
  | "NaN" => return .float .nan
  | "Some" =>
    gap
    marks ['(']
    gap
    let value ← value
    gap
    let _ ← mark? [',']
    gap
    marks [')']
    return value
  | _ =>
    gap
    if ← mark? ['('] then struct value else return .nothing

/-- How deep values may nest. -/
def nestingLimit : Nat :=
  128

/-- A value, nested no deeper than a bound. -/
def valueAt : (bound : Nat) → Reader Setting
  | 0 => failure
  | bound + 1 => do
    match ← rest with
    | '(' :: cs =>
      set cs
      struct (valueAt bound)
    | '[' :: cs =>
      set cs
      return .list (← items (valueAt bound) ']' cs.length)
    | '\x7b' :: cs =>
      set cs
      let key := mapKey (valueAt bound)
      return sorted (← members key (valueAt bound) '\x7d' cs.length)
    | '"' :: cs =>
      set cs
      return .text (← string)
    | 'r' :: '"' :: cs =>
      set ('"' :: cs)
      return .text (← raw)
    | 'r' :: '#' :: '"' :: _ | 'r' :: '#' :: '#' :: _ =>
      set ((← rest).drop 1)
      return .text (← raw)
    | '\'' :: cs =>
      set cs
      return .text (← character)
    | '-' :: 'i' :: 'n' :: 'f' :: cs =>
      set cs
      return .float (.infinite true)
    | c :: _ =>
      if c.isDigit || c == '+' || c == '-' || c == '.' then
        (number? (← takeWhile isNumberChar) : Option Setting)
      else named (valueAt bound) (← name)
    | [] => failure

/-- The attributes in front of a document, no more than `fuel`. -/
def attributes : (fuel : Nat) → Reader Unit
  | 0 => pure ()
  | fuel + 1 => do
    gap
    if ← mark? ['#'] then
      gap
      marks ['!']
      gap
      marks ['[']
      gap
      marks "enable".toList
      gap
      marks ['(']
      let known := ["unwrap_newtypes", "implicit_some", "unwrap_variant_newtypes"]
      let words := (← takeWhile (· ≠ ')')).filter (!isGap ·)
      let words := (words.splitOn ',').map String.ofList
      let words := if words.getLast? = some "" then words.dropLast else words
      if words.all (· ∈ known) then
        marks [')']
        gap
        marks [']']
        attributes fuel
      else failure

/-- A document: a value, with blanks and comments around it. -/
def document : Reader Setting := do
  attributes (← rest).length
  gap
  let value ← valueAt nestingLimit
  gap
  return value

/-- The value of a document. -/
def read? (text : String) : Option Setting :=
  document.all? text.toList

end Ron

end Schemata
