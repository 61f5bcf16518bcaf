import Schemata.Text.Blank
import Schemata.Text.Code
import Schemata.Text.Reader

/-!
# TOML Strings

Four ways to write a string: with escapes or without them, each on one line or
on several. A line break inside a string is always read as a single newline.

Every reader starts behind the opening marks and gives back what follows the
closing ones.

A string is written in the first of these ways in which every character stands
for itself. If there is none it is written with escapes.

## Main definitions

* `basicText`, `literalText`: Strings on one line.
* `basicBlock`, `literalBlock`: Strings on several lines.
* `quoted`: A string as it is written.
-/

namespace Schemata

namespace Toml

open Text (Piece)
open Text.Piece (pushChar?)

/-- What may stand in a comment or unescaped in a string: no control but the tab. -/
def isPlain (c : Char) : Bool :=
  c == '\t' || (' ' ≤ c && c ≠ '\x7f')

/-- The character of a one-letter escape. -/
def escaped? : Char → Option Char
  | 'b' => some '\x08'
  | 't' => some '\t'
  | 'n' => some '\n'
  | 'f' => some '\x0c'
  | 'r' => some '\r'
  | '"' => some '"'
  | '\\' => some '\\'
  | _ => none

/-- A string with escapes, on one line. -/
def basicText : List Char → Option Piece
  | '"' :: rest => some ([], rest)
  | '\\' :: 'u' :: a :: b :: c :: d :: rest =>
    pushChar? (Text.ofCode? [a, b, c, d]) (basicText rest)
  | '\\' :: 'U' :: a :: b :: c :: d :: e :: f :: g :: h :: rest =>
    pushChar? (Text.ofCode? [a, b, c, d, e, f, g, h]) (basicText rest)
  | '\\' :: c :: rest => pushChar? (escaped? c) (basicText rest)
  | c :: rest => if isPlain c && c ≠ '\\' then pushChar? c (basicText rest) else none
  | [] => none

/-- A string without escapes, on one line. -/
def literalText : List Char → Option Piece
  | '\'' :: rest => some ([], rest)
  | c :: rest => if isPlain c then pushChar? c (literalText rest) else none
  | [] => none

/-- What follows three closing marks: one or two more of them still belong to the text. -/
def closing (mark : Char) (rest : List Char) : List Char × List Char :=
  let extra := (rest.take 2).takeWhile (· == mark)
  (extra, rest.drop extra.length)

/-- Nothing but blanks is left on the line. -/
def endsLine (cs : List Char) : Bool :=
  match cs.dropWhile Text.isLineBlank with
  | '\n' :: _ | '\r' :: '\n' :: _ => true
  | _ => false

/-- A string with escapes, on several lines. A backslash at the end of a line takes away all
    blanks and line breaks that follow; `skipping` says that this is going on. -/
def basicBlock (skipping : Bool) : List Char → Option Piece
  | '"' :: '"' :: '"' :: rest => some (closing '"' rest)
  | '\r' :: '\n' :: rest =>
    if skipping then basicBlock true rest else pushChar? '\n' (basicBlock false rest)
  | '\n' :: rest =>
    if skipping then basicBlock true rest else pushChar? '\n' (basicBlock false rest)
  | '\\' :: 'u' :: a :: b :: c :: d :: rest =>
    pushChar? (Text.ofCode? [a, b, c, d]) (basicBlock false rest)
  | '\\' :: 'U' :: a :: b :: c :: d :: e :: f :: g :: h :: rest =>
    pushChar? (Text.ofCode? [a, b, c, d, e, f, g, h]) (basicBlock false rest)
  | '\\' :: c :: rest =>
    if endsLine (c :: rest) then basicBlock true (c :: rest)
    else pushChar? (escaped? c) (basicBlock false rest)
  | c :: rest =>
    if skipping && Text.isLineBlank c then basicBlock true rest
    else if isPlain c && c ≠ '\\' then pushChar? c (basicBlock false rest)
    else none
  | [] => none

/-- A string without escapes, on several lines. -/
def literalBlock : List Char → Option Piece
  | '\'' :: '\'' :: '\'' :: rest => some (closing '\'' rest)
  | '\r' :: '\n' :: rest => pushChar? '\n' (literalBlock rest)
  | c :: rest => if isPlain c || c == '\n' then pushChar? c (literalBlock rest) else none
  | [] => none

/-- A line break right behind the opening marks does not count. -/
def dropBreak : List Char → List Char
  | '\n' :: rest => rest
  | '\r' :: '\n' :: rest => rest
  | cs => cs

/-- A string in any of the four ways. -/
def string? : List Char → Option Piece
  | '"' :: '"' :: '"' :: rest => basicBlock false (dropBreak rest)
  | '\'' :: '\'' :: '\'' :: rest => literalBlock (dropBreak rest)
  | '"' :: rest => basicText rest
  | '\'' :: rest => literalText rest
  | _ => none

/-! ### Writing -/

/-- The upper-case digits of a control character, filled up to four. -/
def controlDigits (c : Char) : List Char :=
  let digits := (Nat.toDigits 16 c.toNat).map Char.toUpper
  List.replicate (4 - digits.length) '0' ++ digits

/-- A character other than a quotation mark between marks with escapes. -/
def escapedChar (block : Bool) (c : Char) : List Char :=
  match c with
  | '\x08' => ['\\', 'b']
  | '\t' => ['\\', 't']
  | '\n' => if block then ['\n'] else ['\\', 'n']
  | '\x0c' => ['\\', 'f']
  | '\r' => ['\\', 'r']
  | '\\' => ['\\', '\\']
  | c => if c < ' ' ∨ c = '\x7f' then '\\' :: 'u' :: controlDigits c else [c]

/-- A text between marks with escapes. No more than `allowed` quotation marks in a row stand
    for themselves; `left` says how many may still follow. -/
def escapedText (block : Bool) (allowed : Nat) : (left : Nat) → List Char → List Char
  | _, [] => []
  | 0, '"' :: rest => '\\' :: '"' :: escapedText block allowed allowed rest
  | left + 1, '"' :: rest => '"' :: escapedText block allowed left rest
  | _, c :: rest => escapedChar block c ++ escapedText block allowed allowed rest

/-- The length of the longest row of a mark; `current` is that of the row in front. -/
def longestRow (mark : Char) : (current : Nat) → List Char → Nat
  | current, [] => current
  | current, c :: rest =>
    if c = mark then longestRow mark (current + 1) rest
    else max current (longestRow mark 0 rest)

/-- A way to write a string. -/
inductive Style where
  | basic
  | literal
  | basicBlock
  | literalBlock
  deriving DecidableEq, Repr

/-- The character needs an escape wherever it stands. -/
def isControl (c : Char) : Bool :=
  !(isPlain c || c == '\n')

/-- The way to write a string: the first one in which every character stands for itself, or
    else one with escapes. -/
def Style.of (cs : List Char) : Style :=
  let quotes := longestRow '"' 0 cs
  let apostrophes := longestRow '\'' 0 cs
  let raw := !cs.any isControl
  let lines := cs.contains '\n'
  let straight := raw && !cs.contains '\\'
  if straight && quotes = 0 && !lines then .basic
  else if raw && apostrophes = 0 && !lines then .literal
  else if straight && quotes ≤ 2 then .basicBlock
  else if raw && apostrophes ≤ 2 then .literalBlock
  else if lines then .basicBlock
  else .basic

/-- A string as it is written. A block of several lines starts on a new line. -/
def quoted (text : String) : String :=
  let cs := text.toList
  let opening := if cs.contains '\n' then "\n" else ""
  match Style.of cs with
  | .basic => "\"" ++ String.ofList (escapedText false 0 0 cs) ++ "\""
  | .literal => "'" ++ text ++ "'"
  | .basicBlock =>
    "\"\"\"" ++ opening ++ String.ofList (escapedText true 2 2 cs) ++ "\"\"\""
  | .literalBlock => "'''" ++ opening ++ text ++ "'''"

end Toml

end Schemata
