import Schemata.Text.Blank
import Schemata.Text.Code
import Schemata.Text.Reader

/-!
# YAML Texts

The ways to write a text that do not depend on what is around it: in
quotation marks, in apostrophes, and as the lines of a block.

A line break inside of a text is folded: alone it counts as a blank, and of
several the first does not count. Blanks around it do not count either. The
lines of a block are folded only if its mark says so, and never around a line
that starts with a blank.

## Main definitions

* `quotedText`, `literalText`: Texts between marks.
* `plainText`: The text of a line without marks.
* `Block`: How a block ends and whether it is folded.
* `Block.text`: The text of the lines of a block.
-/

namespace Schemata

namespace Yaml

open Text (Piece)
open Text.Piece (push)

/-- A word cannot go on here: there is a blank, a line break or nothing. -/
def endsWord : List Char → Bool
  | [] => true
  | c :: _ => Text.isLineBlank c || c == '\n'

/-- The character parts the items of a list on one line. -/
def isFlowMark (c : Char) : Bool :=
  c == ',' || c == '[' || c == ']' || c == '\x7b' || c == '\x7d'

/-! ### Folding -/

/-- The number of line breaks in front, with blanks between them, and what follows the
    blanks behind them. -/
def breaks : (fuel : Nat) → List Char → Nat × List Char
  | fuel + 1, '\n' :: cs =>
    let (count, rest) := breaks fuel (cs.dropWhile Text.isLineBlank)
    (count + 1, rest)
  | _, cs => (0, cs)

/-- What a number of line breaks counts as. -/
def folded : (count : Nat) → List Char
  | 0 => []
  | 1 => [' ']
  | count + 2 => List.replicate (count + 1) '\n'

/-! ### Texts between marks -/

/-- The character of an escape with one letter. -/
def escaped? : Char → Option Char
  | '0' => some '\x00'
  | 'a' => some '\x07'
  | 'b' => some '\x08'
  | 't' | '\t' => some '\t'
  | 'n' => some '\n'
  | 'v' => some '\x0b'
  | 'f' => some '\x0c'
  | 'r' => some '\r'
  | 'e' => some '\x1b'
  | ' ' => some ' '
  | '"' => some '"'
  | '/' => some '/'
  | '\\' => some '\\'
  | 'N' => some '\u0085'
  | '_' => some '\u00a0'
  | 'L' => some '\u2028'
  | 'P' => some '\u2029'
  | _ => none

/-- The number of digits that follow the letter of an escape. -/
def codeLength : Char → Nat
  | 'x' => 2
  | 'u' => 4
  | 'U' => 8
  | _ => 0

/-- The character behind a backslash, and what follows it. -/
def escape? : List Char → Option (Char × List Char)
  | [] => none
  | c :: cs =>
    let length := codeLength c
    if length = 0 then (escaped? c).map (·, cs)
    else if cs.length < length then none
    else (Text.ofCode? (cs.take length)).map (·, cs.drop length)

/-- Blanks or line breaks in front of a text: blanks at the end of a line do not count. -/
def space (fuel : Nat) (cs : List Char) : List Char × List Char :=
  let rest := cs.dropWhile Text.isLineBlank
  if rest.head? = some '\n' then
    let (count, rest) := breaks fuel rest
    (folded count, rest)
  else (cs.takeWhile Text.isLineBlank, rest)

/-- The text up to a quotation mark, with escapes, and what follows the mark. -/
def quotedText : (fuel : Nat) → List Char → Option Piece
  | 0, _ => none
  | _, [] => none
  | _, '"' :: cs => some ([], cs)
  | fuel + 1, '\\' :: '\n' :: cs => quotedText fuel (cs.dropWhile Text.isLineBlank)
  | fuel + 1, '\\' :: cs => do
    let (c, cs) ← escape? cs
    push [c] (quotedText fuel cs)
  | fuel + 1, c :: cs =>
    if Text.isLineBlank c || c == '\n' then
      let (text, rest) := space fuel (c :: cs)
      push text (quotedText fuel rest)
    else push [c] (quotedText fuel cs)

/-- The text up to an apostrophe, which is written twice inside, and what follows it. -/
def literalText : (fuel : Nat) → List Char → Option Piece
  | 0, _ => none
  | _, [] => none
  | fuel + 1, '\'' :: '\'' :: cs => push ['\''] (literalText fuel cs)
  | _, '\'' :: cs => some ([], cs)
  | fuel + 1, c :: cs =>
    if Text.isLineBlank c || c == '\n' then
      let (text, rest) := space fuel (c :: cs)
      push text (literalText fuel rest)
    else push [c] (literalText fuel cs)

/-! ### Texts without marks -/

/-- A text without marks may start here. -/
def startsPlain (flow : Bool) : List Char → Bool
  | [] => false
  | c :: cs =>
    if c == '-' || c == '?' || c == ':' then
      !endsWord cs && !(flow && cs.head?.any isFlowMark)
    else !(isFlowMark c || endsWord [c] || "#&*!|>'\"%@\x60".toList.contains c)

/-- The text of a line without marks, up to a comment or the colon behind a key, and what
    follows it; `afterBlank` says that a blank is in front. -/
def plainText (flow afterBlank : Bool) : List Char → Piece
  | [] => ([], [])
  | c :: cs =>
    let ends :=
      c == '\n' || (c == '#' && afterBlank) || (flow && isFlowMark c) ||
        (c == ':' && (endsWord cs || (flow && cs.head?.any isFlowMark)))
    if ends then ([], c :: cs)
    else
      let (text, rest) := plainText flow (Text.isLineBlank c) cs
      (c :: text, rest)

/-- A text without the blanks at its end. -/
def trimEnd (cs : List Char) : List Char :=
  (cs.reverse.dropWhile Text.isLineBlank).reverse

/-! ### Blocks -/

/-- What becomes of the line breaks at the end of a block. -/
inductive Ending where
  | strip
  /-- One stays. -/
  | clip
  | keep
  deriving DecidableEq, Repr

/-- How a block ends and whether it is folded. -/
structure Block where
  isFolded : Bool
  ending : Ending
  /-- The blanks in front of its lines, beyond those of what it is in. -/
  indent : Option Nat
  deriving DecidableEq, Repr

namespace Block

/-- The block of the marks behind its first one. -/
def ofMarks? (isFolded : Bool) : List Char → Option Block
  | [] => some ⟨isFolded, .clip, none⟩
  | ['-'] => some ⟨isFolded, .strip, none⟩
  | ['+'] => some ⟨isFolded, .keep, none⟩
  | [c] => if c.isDigit ∧ c ≠ '0' then some ⟨isFolded, .clip, some (c.toNat - 48)⟩ else none
  | [a, b] => do
    let sign := if a.isDigit then b else a
    let digit := if a.isDigit then a else b
    guard ((sign = '-' ∨ sign = '+') ∧ digit.isDigit ∧ digit ≠ '0')
    return ⟨isFolded, if sign = '-' then .strip else .keep, some (digit.toNat - 48)⟩
  | _ => none

/-- The first characters are blanks only. -/
def isEmptyLine (line : List Char) : Bool :=
  line.all (· == ' ')

/-- The line starts with a blank. -/
def isIndented (line : List Char) : Bool :=
  line.head?.any Text.isLineBlank

/-- The lines of a block as one text; `previous` is the line before, if there is one, and
    `empty` the number of lines without text behind it. -/
def join (isFolded : Bool) (previous : Option (List Char)) (empty : Nat) :
    List (List Char) → List Char
  | [] => []
  | line :: rest =>
    if line = [] then join isFolded previous (empty + 1) rest
    else
      let gap :=
        match previous with
        | none => List.replicate empty '\n'
        | some previous =>
          if isFolded && !isIndented previous && !isIndented line then folded (empty + 1)
          else List.replicate (empty + 1) '\n'
      gap ++ line ++ join isFolded (some line) 0 rest

/-- The text of some lines, without the blanks in front of them; `isClosed` says that the last
    one ends in a line break. -/
def text (block : Block) (lines : List (List Char)) (isClosed : Bool) : String :=
  let trailing := (lines.reverse.takeWhile (· = [])).length
  let content := lines.take (lines.length - trailing)
  let last := if isClosed || trailing > 0 then ['\n'] else []
  let ending :=
    match block.ending with
    | .strip => []
    | .clip => if content = [] then [] else last
    | .keep => (if content = [] then [] else last) ++ List.replicate trailing '\n'
  String.ofList (join block.isFolded none 0 content ++ ending)

end Block

end Yaml

end Schemata
