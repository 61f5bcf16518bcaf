/-!
# Files

What a command asks of the files it works on, and a set of files given by
their texts that answers it.

A name is a path with slashes. In a given set it starts at the top, a part
that is empty or a dot stays where it is, two dots go up, and a directory is
there if a file is in it.

## Main definitions

* `Files`: Files as a command sees them.
* `FileFault`: Why a file cannot be read.
* `Files.ofTexts`: The files of some texts.
* `extension?`: The extension of a file name.
-/

namespace Schemata

/-- Why a file cannot be read. -/
inductive FileFault where
  | notFound
  | isDirectory
  | notADirectory
  | other (text : String)
  deriving DecidableEq, Repr

/-- The wording of a fault. -/
def FileFault.message : FileFault → String
  | .notFound => "No such file or directory (os error 2)"
  | .isDirectory => "Is a directory (os error 21)"
  | .notADirectory => "Not a directory (os error 20)"
  | .other text => text

/-- Files as a command sees them. -/
structure Files (m : Type → Type) where
  /-- The text of a file. -/
  read (name : String) : m (Except FileFault String)
  /-- There is a file of the name. -/
  isFile (name : String) : m Bool
  /-- The names of the files at or below a place. -/
  below (name : String) : m (List String)

/-! ### Files of texts -/

namespace Files

/-- The texts of some files, by the parts of their names. -/
abbrev Texts :=
  List (List String × String)

/-- The parts of a name. -/
def parts (name : String) : List String :=
  (name.toList.splitOn '/').map String.ofList

/-- What is at a place. -/
inductive Place where
  | file (text : String)
  /-- A directory, with what is in it. -/
  | directory (inside : Texts)
  deriving Repr

/-- What is at the end of a path from the top. -/
def place? (texts : Texts) (path : List String) : Except FileFault Place :=
  match texts.lookup path with
  | some text => .ok (.file text)
  | none =>
    let inside := texts.filterMap fun (name, text) =>
      if path.isPrefixOf name then some (name.drop path.length, text) else none
    if inside = [] ∧ path ≠ [] then .error .notFound else .ok (.directory inside)

/-- Follow the parts of a name, from the directory at `path`. -/
def follow (texts : Texts) (path : List String) : List String → Except FileFault Place
  | [] => place? texts path
  | part :: rest => do
    match ← place? texts path with
    | .file _ => .error .notADirectory
    | .directory _ =>
      if part = "" ∨ part = "." then follow texts path rest
      else if part = ".." then
        if path = [] then .error .notFound else follow texts path.dropLast rest
      else follow texts (path ++ [part]) rest

/-- What is at the place of a name. A name that starts with a slash leads elsewhere. -/
def find (texts : Texts) (name : String) : Except FileFault Place :=
  if name.toList.head? = some '/' ∨ name = "" then .error .notFound
  else follow texts [] (parts name)

/-- The files at or below a place, under the name that leads there. -/
def namesBelow (texts : Texts) (name : String) : List String :=
  match find texts name with
  | .error _ => []
  | .ok (.file _) => [name]
  | .ok (.directory inside) =>
    let front := if name.toList.getLast? = some '/' then name else name ++ "/"
    inside.map fun (path, _) => front ++ String.intercalate "/" path

/-- The files of some texts, each under a name. -/
def ofTexts (texts : List (String × String)) : Files Id :=
  let texts := texts.map fun (name, text) => (parts name, text)
  { read := fun name =>
      match find texts name with
      | .error fault => .error fault
      | .ok (.file text) => .ok text
      | .ok (.directory _) => .error .isDirectory
    isFile := fun name =>
      match find texts name with
      | .ok (.file _) => true
      | _ => false
    below := namesBelow texts }

end Files

/-! ### Extensions -/

/-- The extension of a file name: what follows its last dot, unless that is its first
    character. -/
def extension? (name : String) : Option String :=
  let last := (name.toList.reverse.takeWhile (· ≠ '/')).reverse
  let back := last.reverse.takeWhile (· ≠ '.')
  if back.length + 1 < last.length then some (String.ofList back.reverse) else none

end Schemata
