/-!
# White Space

The Unicode property `White_Space`, and the two things done with it: skipping
it at the front of a text that is being read, and trimming both ends of a
text that a person wrote.

The property is a closed set of twenty-five characters, so it is listed
outright. Core's `Char.isWhitespace` knows ASCII only and lacks two of its
members.

## Main definitions

* `isBlank`: Membership in the property.
* `isLineBlank`: Spaces and tabs.
* `skipBlanks`: The text without the blanks in front of it.
* `trim`: The text without the blanks at either end.
-/

namespace Schemata

namespace Text

/-- The character has the Unicode property `White_Space`. -/
def isBlank (c : Char) : Bool :=
  let n := c.toNat
  (9 ≤ n && n ≤ 13) || n == 0x20 || n == 0x85 || n == 0xA0 || n == 0x1680 ||
    (0x2000 ≤ n && n ≤ 0x200A) || n == 0x2028 || n == 0x2029 || n == 0x202F ||
    n == 0x205F || n == 0x3000

/-- A blank within a line, for formats that know no others. -/
def isLineBlank (c : Char) : Bool :=
  c == ' ' || c == '\t'

/-- Drop the blanks in front. -/
def skipBlanks (cs : List Char) : List Char :=
  cs.dropWhile isBlank

/-- Drop the blanks at both ends, over characters. -/
def trimChars (cs : List Char) : List Char :=
  (skipBlanks (skipBlanks cs).reverse).reverse

/-- Drop the blanks at both ends. -/
def trim (text : String) : String :=
  String.ofList (trimChars text.toList)

end Text

end Schemata
