import Schemata.Json.Basic
import Schemata.Number.Shortest

/-!
# Writing JSON

The two written forms of a document: compact, with no blank between tokens,
and pretty, with one item or member to a line and two spaces to a level. An
empty list or object stays on one line in both.

Only the characters that a string cannot hold raw are escaped.

## Main definitions

* `Json.compact`, `Json.pretty`: The two written forms.
* `Json.OutputFormat`: The choice between them, and `write`.
-/

namespace Schemata

namespace Json

/-- A character inside a string. -/
def escaped (c : Char) : List Char :=
  if c = '"' then ['\\', '"']
  else if c = '\\' then ['\\', '\\']
  else if c = '\x08' then ['\\', 'b']
  else if c = '\x0c' then ['\\', 'f']
  else if c = '\n' then ['\\', 'n']
  else if c = '\r' then ['\\', 'r']
  else if c = '\t' then ['\\', 't']
  else if c.toNat < 16 then "\\u000".toList ++ Nat.toDigits 16 c.toNat
  else if c.toNat < 32 then "\\u00".toList ++ Nat.toDigits 16 c.toNat
  else [c]

/-- A text between quotation marks. -/
def quoted (text : String) : String :=
  "\"" ++ String.ofList (text.toList.flatMap escaped) ++ "\""

/-- A document that has no parts. -/
def scalarText : Json → String
  | .null => "null"
  | .bool value => if value then "true" else "false"
  | .int value => toString value
  | .float value => Format.double.finiteText .document value
  | .string value => quoted value
  | .array _ => "[]"
  | .object _ => "\x7b\x7d"

mutual

/-- The document with no blank between tokens. -/
def compact : Json → String
  | .array items => "[" ++ String.intercalate "," (compactItems items) ++ "]"
  | .object members => "\x7b" ++ String.intercalate "," (compactMembers members) ++ "\x7d"
  | scalar => scalarText scalar

/-- The items of a list, each in compact form. -/
def compactItems : List Json → List String
  | [] => []
  | item :: rest => compact item :: compactItems rest

/-- The members of an object, each in compact form. -/
def compactMembers : List (String × Json) → List String
  | [] => []
  | (key, value) :: rest => (quoted key ++ ":" ++ compact value) :: compactMembers rest

end

/-- A line break and the indentation of a level. -/
def newline (level : Nat) : String :=
  "\n" ++ String.ofList (List.replicate (2 * level) ' ')

/-- Parts between brackets, one to a line, or just the brackets. -/
def block (level : Nat) (opening closing : String) (parts : List String) : String :=
  if parts = [] then opening ++ closing
  else
    opening ++ newline (level + 1) ++ String.intercalate ("," ++ newline (level + 1)) parts ++
      newline level ++ closing

mutual

/-- The document with one part to a line, its closing bracket at `level`. -/
def prettyAt (level : Nat) : Json → String
  | .array items => block level "[" "]" (prettyItems level items)
  | .object members => block level "\x7b" "\x7d" (prettyMembers level members)
  | scalar => scalarText scalar

/-- The items of a list at `level`, each in pretty form. -/
def prettyItems (level : Nat) : List Json → List String
  | [] => []
  | item :: rest => prettyAt (level + 1) item :: prettyItems level rest

/-- The members of an object at `level`, each in pretty form. -/
def prettyMembers (level : Nat) : List (String × Json) → List String
  | [] => []
  | (key, value) :: rest =>
    (quoted key ++ ": " ++ prettyAt (level + 1) value) :: prettyMembers level rest

end

/-- The document with one part to a line. -/
def pretty (json : Json) : String :=
  prettyAt 0 json

/-- The written forms of a document. -/
inductive OutputFormat where
  | pretty
  | compact
  deriving DecidableEq, Repr

/-- The name of a written form. -/
def OutputFormat.name : OutputFormat → String
  | .pretty => "pretty"
  | .compact => "compact"

/-- The document in a written form. -/
def write (json : Json) : OutputFormat → String
  | .pretty => json.pretty
  | .compact => json.compact

end Json

end Schemata
