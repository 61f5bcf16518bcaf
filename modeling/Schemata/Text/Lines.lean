/-!
# Lines of a Text

A line ends behind a line feed, behind a carriage return and a line feed, or
behind a lone carriage return, and keeps what it ends with. What is left at
the end of the text is a line too, unless it is empty.

## Main definitions

* `splitLines`: The lines of a text.
* `isTerminated`: The line has its end.
-/

namespace Schemata

namespace Text

/-- The lines of some characters; `current` holds the line being read, reversed. -/
def splitChars (current : List Char) : List Char → List (List Char)
  | [] => if current = [] then [] else [current.reverse]
  | '\r' :: '\n' :: rest => ('\n' :: '\r' :: current).reverse :: splitChars [] rest
  | c :: rest =>
    if c = '\n' ∨ c = '\r' then (c :: current).reverse :: splitChars [] rest
    else splitChars (c :: current) rest

/-- The lines of a text, each with what it ends with. -/
def splitLines (text : String) : List String :=
  (splitChars [] text.toList).map String.ofList

/-- The line ends in a line feed or a carriage return. -/
def isTerminated (line : String) : Bool :=
  line.toList.getLast?.any fun c => c == '\n' || c == '\r'

end Text

end Schemata
