import Schemata.Settings.Path

/-!
# Layers of Settings

Settings come from several sources, laid over each other. A source gives
values for paths; a later source replaces single values, and tables are
merged key by key.

The environment is a source too: a variable whose name starts with the mark
of the program gives a path, with a double underscore between its keys, and
its text is read as a boolean or a number if it is one.

## Main definitions

* `Entry`: A value for a path.
* `ofDocument`, `ofEnvironment`: The entries of a source.
* `lay`: A table with some entries laid over it.
-/

namespace Schemata

namespace Settings

/-- A value for a path. -/
structure Entry where
  path : Path
  value : Setting
  deriving Repr

/-! ### Sources -/

/-- The entries of a document: one for each of its members. What is no table is no
    document. -/
def ofDocument (document : Setting) : Option (List Entry) :=
  match document.lowerKeys with
  | .table members => some (members.map fun (key, value) => ⟨.read key, value⟩)
  | _ => none

/-- The integers that a variable can have. -/
def integerRange : Integer.Range :=
  .signed 64

/-- The value of a variable: a boolean or a number if it can be read as one, or else the
    text. -/
def ofText (text : String) : Setting :=
  match Setting.lowered text with
  | "true" => .boolean true
  | "false" => .boolean false
  | _ =>
    match integerRange.read text.toList with
    | .ok n => .integer n
    | .error _ =>
      match Format.double.read text with
      | .ok number => .float number
      | .error _ => .text text

/-- What the names of variables that are settings start with. -/
def environmentMark : List Char :=
  "datamodel__".toList

/-- A text with a dot for every double underscore. -/
def dotted : List Char → List Char
  | '_' :: '_' :: rest => '.' :: dotted rest
  | c :: rest => c :: dotted rest
  | [] => []

/-- The entry of a variable, if it is a setting. -/
def ofVariable? (name text : String) : Option Entry :=
  let cs := (Setting.lowered name).toList
  if environmentMark.isPrefixOf cs then
    some ⟨.read (String.ofList (dotted (cs.drop environmentMark.length))), ofText text⟩
  else none

/-- The entries of an environment. -/
def ofEnvironment (environment : List (String × String)) : List Entry :=
  environment.filterMap fun (name, text) => ofVariable? name text

/-! ### Laying -/

/-- A table with some entries laid over it, one after the other. -/
def lay (table : Setting.Members) (entries : List Entry) : Except Fault Setting.Members :=
  entries.foldlM (fun table entry => entry.path.assign entry.value table) table

end Settings

end Schemata
