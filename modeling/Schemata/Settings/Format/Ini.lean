import Schemata.Settings.Value
import Schemata.Text.Blank
import Schemata.Text.Code
import Schemata.Text.Reader

/-!
# INI Documents

Keys with values, one to a line, and headers in brackets that start a
section. A key ends at an equals sign or a colon, wherever that is. A comment
takes a line of its own and starts it.

Every value is a text. It may stand in quotation marks of either kind; a
backslash starts an escape everywhere. Blanks at the ends of keys, values and
headers do not count. Of two sections with one header the later counts.

## Main definitions

* `Ini.read?`: The table of a document.
-/

namespace Schemata

namespace Ini

open Text (Piece)
open Text.Piece (push)

/-- The character of an escape, other than that of a code. -/
def escaped : Char → List Char
  | '0' => ['\x00']
  | 'a' => ['\x07']
  | 'b' => ['\x08']
  | 't' => ['\t']
  | 'r' => ['\r']
  | 'n' => ['\n']
  | '\n' => []
  | c => [c]

/-- The text up to a character that ends it, which stays; `open?` says that it may also end
    with the document. -/
def textUntil (isEnd : Char → Bool) (open? : Bool) : List Char → Option Piece
  | [] => if open? then some ([], []) else none
  | '\\' :: 'x' :: a :: b :: c :: d :: rest =>
    match Text.ofCode? [a, b, c, d] with
    | some code => push [code] (textUntil isEnd open? rest)
    | none => none
  | '\\' :: c :: rest =>
    if c = 'x' then none else push (escaped c) (textUntil isEnd open? rest)
  | c :: rest =>
    if isEnd c then some ([], c :: rest)
    else if c = '\\' then none
    else push [c] (textUntil isEnd open? rest)

/-- The character ends a line. -/
def isBreak (c : Char) : Bool :=
  c == '\n' || c == '\r'

/-- The text up to the end of the line. -/
def lineText (cs : List Char) : Option Piece :=
  textUntil isBreak true cs

/-- A value behind an opening quotation mark, with what follows the closing one. -/
def quotedText (mark : Char) (cs : List Char) : Option Piece := do
  let (text, rest) ← textUntil (· == mark) false cs
  push text (lineText (rest.drop 1))

/-- The value behind an equals sign. -/
def valueText (cs : List Char) : Option Piece :=
  match cs.dropWhile fun c => Text.isBlank c && !isBreak c with
  | '"' :: rest => quotedText '"' rest
  | '\'' :: rest => quotedText '\'' rest
  | rest => lineText rest

/-- A text without the blanks at its ends. -/
def trimmed (cs : List Char) : String :=
  String.ofList (Text.trimChars cs)

/-! ### Documents -/

/-- What has been read: the members outside of sections, and the sections. -/
structure Progress where
  members : Setting.Members
  sections : List (String × Setting.Members)
  deriving Repr

/-- One more section. -/
def Progress.openSection (progress : Progress) (title : String) : Progress :=
  { progress with sections := progress.sections ++ [(title, [])] }

/-- One more member, of the latest section if there is one. -/
def Progress.add (progress : Progress) (key value : String) : Progress :=
  match progress.sections.getLast? with
  | none => { progress with members := progress.members ++ [(key, .text value)] }
  | some (title, members) =>
    { progress with
      sections := progress.sections.dropLast ++ [(title, members ++ [(key, .text value)])] }

/-- What has been read as a table. -/
def Progress.toSetting (progress : Progress) : Setting :=
  .table (progress.members ++ progress.sections.map fun (title, members) => (title, .table members))

/-- Skip blanks; `fresh` says that a line starts here. -/
def skipBlanks (fresh : Bool) : List Char → Bool × List Char
  | c :: rest => if Text.isBlank c then skipBlanks (c == '\n') rest else (fresh, c :: rest)
  | [] => (fresh, [])

/-- The parts of a document, no more than `fuel`. -/
def parts (fuel : Nat) (fresh : Bool) (progress : Progress) (cs : List Char) :
    Option Progress :=
  match fuel, skipBlanks fresh cs with
  | _, (_, []) => some progress
  | 0, _ => none
  | fuel + 1, (fresh, c :: rest) =>
    if c = ';' ∨ c = '#' then
      if fresh then parts fuel true progress ((rest.dropWhile (· ≠ '\n')).drop 1) else none
    else if c = '[' then do
      let (title, rest) ← textUntil (· == ']') false rest
      parts fuel false (progress.openSection (trimmed title)) (rest.drop 1)
    else if c = '=' ∨ c = ':' then none
    else do
      let (key, rest) ← textUntil (fun c => c == '=' || c == ':') false (c :: rest)
      if trimmed key = "" then none
      else
        let (value, rest) ← valueText (rest.drop 1)
        parts fuel false (progress.add (trimmed key) (trimmed value)) rest

/-- The table of a document. -/
def read? (text : String) : Option Setting :=
  let cs := text.toList
  (parts (cs.length + 1) true ⟨[], []⟩ cs).map Progress.toSetting

end Ini

end Schemata
