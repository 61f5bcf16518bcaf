import Schemata.Text.Reader
import Schemata.Toml.Scalar
import Schemata.Toml.Table
import Schemata.Toml.Text

/-!
# Reading TOML

A document is a series of lines: a header, a key with its value, or nothing;
each may end in a comment. Values that span lines are lists and blocks of
text.

Only whether a text is a document is told, not what is wrong with it.

## Main definitions

* `Reader.value`: A value.
* `Reader.lines`: The lines of a document.
* `Toml.read?`: The members of a document.
-/

namespace Schemata

namespace Toml

open Text (Reader)
open Text.Reader (rest marks mark? takeWhile)

namespace Reader

/-- Blanks within a line. -/
def gap : Reader Unit := do
  let _ ← takeWhile Text.isLineBlank

/-- A comment, if there is one. -/
def comment : Reader Unit := do
  if ← mark? ['#'] then
    let _ ← takeWhile isPlain

/-- A line break, if there is one. -/
def break? : Reader Bool := do
  if ← mark? ['\n'] then return true else mark? ['\r', '\n']

/-- The end of a line, with a comment in front of it. -/
def endLine : Reader Unit := do
  gap
  comment
  if ← break? then pure ()
  else if (← rest) = [] then pure ()
  else failure

/-- Blanks, comments and line breaks, up to `fuel` lines of them. -/
def space : (fuel : Nat) → Reader Unit
  | 0 => pure ()
  | fuel + 1 => do
    gap
    comment
    if ← break? then space fuel

/-! ### Keys -/

/-- The character can stand in a key without quotation marks. -/
def isKeyChar (c : Char) : Bool :=
  c.isAlphanum || c == '_' || c == '-'

/-- One key: a word, or a string on one line. -/
def simpleKey : Reader String := do
  match ← rest with
  | '"' :: cs =>
    let (key, cs) ← (basicText cs : Option _)
    set cs
    return String.ofList key
  | '\'' :: cs =>
    let (key, cs) ← (literalText cs : Option _)
    set cs
    return String.ofList key
  | _ =>
    let key ← takeWhile isKeyChar
    if key = [] then failure else return String.ofList key

/-- Keys with dots between them; there is one key for every unit of `fuel` at most. -/
def keys : (fuel : Nat) → Reader (List String)
  | 0 => failure
  | fuel + 1 => do
    gap
    let key ← simpleKey
    gap
    if ← mark? ['.'] then return key :: (← keys fuel) else return [key]

/-- How many levels lists and tables may nest, and keys may have. -/
def nestingLimit : Nat :=
  80

/-- A dotted key. -/
def dottedKey : Reader (List String) :=
  keys (nestingLimit - 1)

/-! ### Values -/

/-- The items of a list up to its end, with the reading of one item. -/
def items (value : Reader Toml) : (fuel : Nat) → Reader (List Toml)
  | 0 => failure
  | fuel + 1 => do
    space (fuel + 1)
    if ← mark? [']'] then return []
    else
      let item ← value
      space (fuel + 1)
      if ← mark? [','] then return item :: (← items value fuel)
      else
        marks [']']
        return [item]

/-- A key and its value, with the reading of the value. -/
def member (value : Reader Toml) : Reader (List String × Toml) := do
  let key ← dottedKey
  marks ['=']
  gap
  return (key, ← value)

/-- The members of a table on one line, with the reading of a value. -/
def inlineMembers (value : Reader Toml) : (fuel : Nat) → Node.Members → Reader Node.Members
  | 0, _ => failure
  | fuel + 1, members => do
    let (key, value') ← member value
    let members ← (Node.assign? value' key members : Option _)
    gap
    if ← mark? [','] then inlineMembers value fuel members
    else
      marks ['\x7d']
      return members

/-- A string, or the value of a word. -/
def scalar : Reader Toml := do
  let cs ← rest
  match cs with
  | '"' :: _ | '\'' :: _ =>
    let (text, cs) ← (string? cs : Option _)
    set cs
    return .string (String.ofList text)
  | _ =>
    let (word, cs) := takeWord cs
    set cs
    (word? word : Option Toml)

/-- A value, with the reading of the values in it. -/
def valueWith (value : Reader Toml) : Reader Toml := do
  match ← rest with
  | '[' :: more =>
    set more
    return .array (← items value (more.length + 1))
  | '\x7b' :: more =>
    set more
    gap
    if ← mark? ['\x7d'] then return .table []
    else return .table (Node.toMembers (← inlineMembers value (more.length + 1) []))
  | _ => scalar

/-- A value that nests no deeper than a bound. -/
def valueAt : (bound : Nat) → Reader Toml
  | 0 => scalar
  | bound + 1 => valueWith (valueAt bound)

/-- A value. -/
def value : Reader Toml :=
  valueAt (nestingLimit - 1)

/-! ### Lines -/

/-- The tables so far, and the path of the latest header. -/
structure Progress where
  members : Node.Members
  path : List String
  deriving Repr

/-- A header, behind its opening marks. -/
def header (closing : List Char) (step : List String → Node.Members → Option Node.Members)
    (progress : Progress) : Reader Progress := do
  let path ← dottedKey
  marks closing
  return ⟨← (step path progress.members : Option _), path⟩

/-- What a line adds. -/
def line (progress : Progress) : Reader Progress := do
  gap
  match ← rest with
  | [] | '#' :: _ | '\n' :: _ | '\r' :: _ => return progress
  | '[' :: '[' :: cs =>
    set cs
    header [']', ']'] Node.openItem? progress
  | '[' :: cs =>
    set cs
    header [']'] Node.openTable? progress
  | _ =>
    let (key, value) ← member value
    return { progress with
      members := ← (Node.assignBelow? progress.path key value progress.members : Option _) }

/-- The lines of a document. -/
def lines : (fuel : Nat) → Progress → Reader Progress
  | 0, _ => failure
  | fuel + 1, progress => do
    if (← rest) = [] then return progress
    else
      let progress ← line progress
      endLine
      lines fuel progress

end Reader

/-- The members of a document. A byte order mark in front of it does not count. -/
def read? (text : String) : Option (List (String × Toml)) := do
  let cs :=
    match text.toList with
    | '\ufeff' :: cs => cs
    | cs => cs
  let (progress, _) ← (Reader.lines (cs.length + 1) ⟨[], []⟩).run cs
  return Node.toMembers progress.members

end Toml

end Schemata
