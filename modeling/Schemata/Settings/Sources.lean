import Schemata.Files
import Schemata.Settings.Basic
import Schemata.Settings.Document

/-!
# Sources of Settings

Where settings are looked for: in files of fixed names, in a file that is
asked for, and in the environment, each over the ones before it. The fixed
files may be missing, and one that cannot be read is as good as missing.

A file may be named without its extension, which tells the format.

## Main definitions

* `Settings.find`: The file of a name, with its text.
* `Settings.readUsual`, `Settings.readAsked`: The entries of a file, which may be missing or
  may not.
* `Settings.load`: The settings of all sources.
-/

namespace Schemata

namespace Settings

/-- The files that are looked for, in order. -/
def usualFiles : List String :=
  ["datamodel.toml", ".datamodel.toml", "config/datamodel.toml"]

variable {m : Type → Type} [Monad m]

/-- The first of some files that exists. -/
def firstFile (files : Files m) : List (String × DocumentFormat) →
    m (Option (String × DocumentFormat))
  | [] => return none
  | (file, format) :: rest => do
    if ← files.isFile file then return some (file, format) else firstFile files rest

/-- A name with every extension, and the format that it stands for. -/
def withExtensions (name : String) : List (String × DocumentFormat) :=
  DocumentFormat.all.flatMap fun format =>
    format.extensions.map fun extension => (name ++ "." ++ extension, format)

/-- The file of a name, with the extension or without it, and its format. -/
def locate (files : Files m) (name : String) :
    m (Except Fault (String × DocumentFormat)) := do
  if ← files.isFile name then
    match (extension? name).bind DocumentFormat.ofExtension? with
    | some format => return .ok (name, format)
    | none => return .error (.unknownFormat name)
  else
    match ← firstFile files (withExtensions name) with
    | some found => return .ok found
    | none => return .error (.missing name)

/-- A file that was found and read. -/
structure Found where
  file : String
  format : DocumentFormat
  text : String

/-- The file of a name, with its text. -/
def find (files : Files m) (name : String) : m (Except Fault Found) := do
  match ← locate files name with
  | .error fault => return .error fault
  | .ok (file, format) =>
    match ← files.read file with
    | .error _ => return .error (.missing file)
    | .ok text => return .ok ⟨file, format, text⟩

/-- The entries of a file. -/
def Found.entries (found : Found) : Except Fault (List Entry) := do
  let document ← found.format.read found.file found.text
  match ofDocument document with
  | some entries => return entries
  | none => throw (.malformed found.file)

/-- The entries of a file that may be missing, or may not be readable. What has been read has to
    be a document all the same. -/
def readUsual (files : Files m) (name : String) : m (Except Fault (List Entry)) := do
  match ← find files name with
  | .error _ => return .ok []
  | .ok found => return found.entries

/-- The entries of a file that has to exist. -/
def readAsked (files : Files m) (name : String) : m (Except Fault (List Entry)) := do
  match ← find files name with
  | .error fault => return .error fault
  | .ok found => return found.entries

/-- The settings of all sources: the usual files, a file that is asked for, and the
    environment. The first source with a fault decides. -/
def load (files : Files m) (asked : Option String) (environment : List (String × String)) :
    m (Except Fault Settings) := do
  let usual ← usualFiles.mapM (readUsual files)
  let asked ← asked.toList.mapM (readAsked files)
  let sources := usual ++ asked ++ [.ok (ofEnvironment environment)]
  return do ofTable (← sources.foldlM (fun table source => do lay table (← source)) [])

end Settings

end Schemata
