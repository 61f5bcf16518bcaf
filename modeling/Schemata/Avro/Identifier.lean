import Schemata.Names

/-!
# Identifiers and Full Names

Which texts can name a type, a field, a symbol or a namespace in a valid
schema, and how a name and a namespace make a full name. Everything is ASCII.

## Main definitions

* `isIdentifier`: A letter or underscore, then letters, digits, underscores.
* `isNamespace`: Identifiers between dots, or nothing.
* `isTypeName`: An identifier, perhaps behind a loosely written namespace.
* `inSpace`: The full name of a name within a namespace.
-/

namespace Schemata

namespace Avro

/-- A letter or an underscore. -/
def isInitial (c : Char) : Bool :=
  c.isAlpha || c == '_'

/-- A letter, a digit or an underscore. -/
def isWordChar (c : Char) : Bool :=
  c.isAlphanum || c == '_'

/-- An identifier, over characters. -/
def isIdentifierChars : List Char → Bool
  | [] => false
  | c :: rest => isInitial c && rest.all isWordChar

/-- The text can name a field or a symbol. -/
def isIdentifier (text : String) : Bool :=
  isIdentifierChars text.toList

/-- The text can be a namespace. -/
def isNamespace (text : String) : Bool :=
  text.toList == [] || (text.toList.splitOn '.').all isIdentifierChars

/-- The text can stand in front of the last dot of a name. -/
def isLooseSpace (text : String) : Bool :=
  match text.toList with
  | [] => true
  | c :: rest => isInitial c && rest.all fun c => isWordChar c || c == '.'

/-- The text can name a type. -/
def isTypeName (text : String) : Bool :=
  (namespaceOf? text).all isLooseSpace && isIdentifier (localName text)

/-- A namespace as a part of full names: the empty one is none. -/
def someSpace (space : Option String) : Option String :=
  space.filter (· ≠ "")

/-- The full name of a name within a namespace. A name with its own namespace keeps that. -/
def inSpace (name : String) (space : Option String) : String :=
  qualify (localName name) ((someSpace (namespaceOf? name)).or (someSpace space))

end Avro

end Schemata
