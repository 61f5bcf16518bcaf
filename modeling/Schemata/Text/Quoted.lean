/-!
# A Character Between Quotes

How a single character is shown in a message: between apostrophes, with an
escape for the apostrophe, the backslash, the usual controls, and every
character of the first 256 that leaves no mark on paper. Those are the two
control blocks, the no-break space and the soft hyphen.

Only bytes are shown this way, so the characters above U+00FF never arise
and are passed through.

## Main definitions

* `isMark`: The character leaves a mark, or is the plain space.
* `quotedChar`: The character between apostrophes.
-/

namespace Schemata

namespace Text

/-- A character below U+0100 that shows on paper, or the plain space. -/
def isMark (c : Char) : Bool :=
  let n := c.toNat
  !(n < 0x20 || (0x7F ≤ n && n ≤ 0xA0) || n == 0xAD)

/-- The inside of a quoted character. -/
def escapedChar (c : Char) : String :=
  if c = '\x00' then "\\0"
  else if c = '\t' then "\\t"
  else if c = '\r' then "\\r"
  else if c = '\n' then "\\n"
  else if c = '\'' then "\\'"
  else if c = '\\' then "\\\\"
  else if isMark c then String.ofList [c]
  else "\\u\x7b" ++ String.ofList (Nat.toDigits 16 c.toNat) ++ "\x7d"

/-- The character between apostrophes, escaped where it would not show. -/
def quotedChar (c : Char) : String :=
  "'" ++ escapedChar c ++ "'"

end Text

end Schemata
