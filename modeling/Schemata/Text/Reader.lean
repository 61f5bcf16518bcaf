/-!
# Reading from the Front

A reader takes something from the front of a text, or finds that it is not
there. What is left is read on by whatever comes next.

What the formats of documents have in common is here as well: texts that are put
together piece by piece, and the blanks and comments between words.

## Main definitions

* `Reader`: What is in front of a text, and what follows it.
* `Reader.marks`, `Reader.mark?`: Characters that have to be there, or may be there.
* `Reader.takeWhile`: The characters of a class.
* `Piece.push`, `Piece.pushChar?`: A longer text in front of what is left.
* `Spacing.gap`: Blanks and comments.
-/

namespace Schemata

namespace Text

/-- What is in front of a text, and what follows it. -/
abbrev Reader :=
  StateT (List Char) Option

namespace Reader

/-- What is left, without taking it. -/
def rest : Reader (List Char) :=
  get

/-- The marks in front, which have to be there. -/
def marks (expected : List Char) : Reader Unit := do
  let cs ← rest
  if expected.isPrefixOf cs then set (cs.drop expected.length) else failure

/-- The marks in front, if they are there. -/
def mark? (expected : List Char) : Reader Bool := do
  let cs ← rest
  if expected.isPrefixOf cs then
    set (cs.drop expected.length)
    return true
  else return false

/-- The characters of a class in front. -/
def takeWhile (p : Char → Bool) : Reader (List Char) := do
  let cs ← rest
  set (cs.dropWhile p)
  return cs.takeWhile p

/-- What a reader finds, if it leaves nothing. -/
def all? (reader : Reader α) (cs : List Char) : Option α :=
  match reader.run cs with
  | some (a, []) => some a
  | _ => none

end Reader

/-! ### Pieces -/

/-- A text that was in front, and what follows it. -/
abbrev Piece :=
  List Char × List Char

/-- Some characters in front of a piece. -/
def Piece.push (cs : List Char) (piece : Option Piece) : Option Piece :=
  piece.map fun (text, rest) => (cs ++ text, rest)

/-- A character in front of a piece, if it is one. -/
def Piece.pushChar? (c : Option Char) (piece : Option Piece) : Option Piece := do
  let c ← c
  Piece.push [c] piece

/-! ### Between the words -/

/-- What may stand between the words of a document: blanks, comments to the end of a line behind
    two slashes, and comments between marks. -/
structure Spacing where
  /-- The character is a blank. -/
  isGap : Char → Bool
  /-- A line ends at the character. -/
  isLineEnd : Char → Bool
  /-- What follows a comment, if that ends; its opening mark has been read. -/
  pastComment? : List Char → Option (List Char)

namespace Spacing

open Reader (rest)

/-- Skip blanks and comments, no more than `fuel` of them. -/
def skip (spacing : Spacing) : (fuel : Nat) → Reader Unit
  | 0 => pure ()
  | fuel + 1 => do
    match ← rest with
    | '/' :: '/' :: cs =>
      set (cs.dropWhile (!spacing.isLineEnd ·))
      spacing.skip fuel
    | '/' :: '*' :: cs =>
      set (← (spacing.pastComment? cs : Option _))
      spacing.skip fuel
    | c :: cs =>
      if spacing.isGap c then
        set (cs.dropWhile spacing.isGap)
        spacing.skip fuel
    | [] => pure ()

/-- Skip all blanks and comments. -/
def gap (spacing : Spacing) : Reader Unit := do
  spacing.skip (← rest).length

end Spacing

end Text

end Schemata
