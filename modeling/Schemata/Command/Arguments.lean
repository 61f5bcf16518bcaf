/-!
# Command Lines

How the words of a command line are understood. Options may stand anywhere
behind their command, and the option for a configuration file also in front
of it. A double hyphen ends the options.

Words are first sorted into options and values (`scan`), which does not depend
on the command; then a command takes what it knows (`Given.add`). The first
word that does not fit decides, so a request for help in front of it is heard.

## Main definitions

* `Command`, `Invocation`: What is to be done.
* `Item`, `scan`: Options and values of a command line.
* `Invocation.read`: The invocation of a command line.
-/

namespace Schemata

/-- What is to be done. -/
inductive Command where
  /-- Print the outline of a schema. -/
  | outline (file : String)
  /-- Print the canonical document of a schema. -/
  | canonical (file : String)
  /-- Check that every schema below a directory survives export and import. -/
  | check (directory : String)
  /-- Rename a field, or the type it holds. -/
  | rename (file path : String) (byType : Bool) (name : String)
  /-- Document a field, or the type it holds. -/
  | document (file path : String) (byType : Bool) (text : String)
  /-- Read a literal as a value of a field. -/
  | parseValue (file path literal : String)
  deriving DecidableEq, Repr

/-- A command with the settings file that is asked for. -/
structure Invocation where
  settingsFile : Option String
  command : Command
  deriving DecidableEq, Repr

namespace Arguments

/-- Why a command line is no invocation. -/
inductive Stop where
  /-- Help is asked for. -/
  | help
  /-- The command line is not understood. -/
  | misuse
  deriving DecidableEq, Repr

/-- An option with a value. -/
inductive OptionName where
  | config
  | path
  deriving DecidableEq, Repr

/-- A part of a command line. -/
inductive Item where
  | option (name : OptionName) (value : String)
  /-- The option that an edit is for a type. -/
  | byType
  | help
  /-- A word that is no option; behind a double hyphen every word is one. -/
  | value (text : String) (ended : Bool)
  /-- The double hyphen that ends the options. -/
  | ending
  | misuse
  deriving DecidableEq, Repr

/-- What a single word is. -/
inductive Word where
  | option (name : OptionName) (value : Option String)
  | item (item : Item)
  deriving DecidableEq, Repr

/-- A word that starts with two hyphens, without them. -/
def longWord (cs : List Char) : Word :=
  let value :=
    match cs.dropWhile (· ≠ '=') with
    | [] => none
    | _ :: value => some (String.ofList value)
  match String.ofList (cs.takeWhile (· ≠ '=')), value with
  | "", none => .item .ending
  | "config", value => .option .config value
  | "path", value => .option .path value
  | "type", none => .item .byType
  | "help", none => .item .help
  | _, _ => .item .misuse

/-- The value that is written behind the letter of an option, perhaps after an equals
    sign. -/
def attached : List Char → Option String
  | [] => none
  | '=' :: value => some (String.ofList value)
  | value => some (String.ofList value)

/-- A word that starts with one hyphen, without it. -/
def shortWord : List Char → Word
  | 'c' :: value => .option .config (attached value)
  | 'p' :: value => .option .path (attached value)
  | 'h' :: _ => .item .help
  | _ => .item .misuse

/-- What a single word is. A lone hyphen is a value. -/
def word (text : String) : Word :=
  match text.toList with
  | '-' :: '-' :: cs => longWord cs
  | '-' :: c :: cs => shortWord (c :: cs)
  | _ => .item (.value text false)

/-- The items of a command line; `pending` is an option that still waits for its value. -/
def scan (pending : Option OptionName) : List String → List Item
  | [] => if pending.isSome then [.misuse] else []
  | text :: rest =>
    match pending, word text with
    | some name, .item (.value value _) => .option name value :: scan none rest
    | some _, _ => [.misuse]
    | none, .option name (some value) => .option name value :: scan none rest
    | none, .option name none => scan (some name) rest
    | none, .item .ending => .ending :: rest.map (.value · true)
    | none, .item item => item :: scan none rest

/-! ### Commands and what they take -/

/-- The name of a command. -/
inductive Name where
  | outline
  | canonical
  | check
  | rename
  | document
  | parseValue
  deriving DecidableEq, Repr

namespace Name

/-- The command of a word. -/
def ofWord? : String → Option Name
  | "show" => some .outline
  | "export" => some .canonical
  | "check" => some .check
  | "rename" => some .rename
  | "document" => some .document
  | "parse-value" => some .parseValue
  | _ => none

/-- The command takes a path. -/
def takesPath (name : Name) : Bool :=
  name = .rename ∨ name = .document ∨ name = .parseValue

/-- The command can be for a type. -/
def takesType (name : Name) : Bool :=
  name = .rename ∨ name = .document

/-- The number of values that the command takes. -/
def arity (name : Name) : Nat :=
  if name.takesPath then 2 else 1

end Name

/-- What a command is given. -/
structure Given where
  config : Option String
  path : Option String
  byType : Bool
  values : List String
  deriving DecidableEq, Repr

namespace Given

/-- Nothing. -/
def nothing : Given :=
  ⟨none, none, false, []⟩

/-- One more item. An option may be given once, and files have names. -/
def add (name : Name) (given : Given) : Item → Except Stop Given
  | .option .config value =>
    if given.config.isSome ∨ value = "" then .error .misuse
    else .ok { given with config := some value }
  | .option .path value =>
    if given.path.isSome ∨ name.takesPath = false then .error .misuse
    else .ok { given with path := some value }
  | .byType =>
    if given.byType ∨ name.takesType = false then .error .misuse
    else .ok { given with byType := true }
  | .value text _ =>
    if name.arity ≤ given.values.length ∨ (given.values = [] ∧ text = "") then .error .misuse
    else .ok { given with values := given.values ++ [text] }
  | .ending => .ok given
  | .help => .error .help
  | .misuse => .error .misuse

/-- The command of what is given. Only a literal needs a path. -/
def command? (given : Given) (name : Name) : Option Command :=
  let path := given.path.getD ""
  match name, given.values with
  | .outline, [file] => some (.outline file)
  | .canonical, [file] => some (.canonical file)
  | .check, [directory] => some (.check directory)
  | .rename, [file, text] => some (.rename file path given.byType text)
  | .document, [file, text] => some (.document file path given.byType text)
  | .parseValue, [file, literal] => given.path.map fun path => .parseValue file path literal
  | _, _ => none

end Given

/-- Words behind the command that explains others: names of commands. -/
def readHelp : List Item → Stop
  | [] => .help
  | [.value text false] =>
    if (Name.ofWord? text).isSome ∨ text = "help" then .help else .misuse
  | _ => .misuse

/-- The invocation of some items, after a settings file that is asked for. -/
def readItems (config : Option String) : List Item → Except Stop Invocation
  | .option .config value :: rest =>
    if config.isSome ∨ value = "" then .error .misuse else readItems (some value) rest
  | .help :: _ => .error .help
  | .value "help" false :: rest => .error (readHelp rest)
  | .value text false :: rest =>
    match Name.ofWord? text with
    | none => .error .misuse
    | some name => do
      let given ← rest.foldlM (Given.add name) Given.nothing
      match given.command? name with
      | some command => return ⟨given.config.or config, command⟩
      | none => .error .misuse
  | _ => .error .misuse

end Arguments

/-- The invocation of a command line. -/
def Invocation.read (words : List String) : Except Arguments.Stop Invocation :=
  Arguments.readItems none (Arguments.scan none words)

end Schemata
