import Schemata.Avro.Document
import Schemata.Command.Arguments
import Schemata.Editing
import Schemata.Fingerprint
import Schemata.LineDiff
import Schemata.Registry.Equality
import Schemata.Settings.Sources

/-!
# Running Commands

What each command prints, and how it ends. A command reads its files through
`Files`, so it runs on a disk as well as on a set of given texts.

An edit first prints what it changes in the outline and then the document;
what was printed stays when the document breaks a rule of the schema language.
A check goes on after a schema that fails.

## Main definitions

* `CommandFault`: Why a command fails.
* `Report`: What a command prints and how it ends.
* `Invocation.run`: A command with the files and variables it sees.
* `runCommandLine`: A command line.
-/

namespace Schemata

/-- Why a command fails. -/
inductive CommandFault where
  | settings (fault : Settings.Fault)
  | unreadable (file : String) (fault : FileFault)
  | notJson (file : String) (fault : Json.Fault)
  | notValid (file : String) (fault : AvroFault)
  | notImportable (file : String) (e : SchemaError)
  | notARecord (file : String)
  | refused (e : SchemaError)
  | exportNotValid (fault : AvroFault)
  /-- The lines of an outline are too wide. -/
  | tooWide
  | typesDiffer
  | documentsDiffer
  | failures (count : Nat)
  deriving Repr

namespace CommandFault

/-- The wording of a fault: what was being done, and what went wrong. -/
def message : CommandFault → String
  | .settings fault => "loading configuration: " ++ fault.message
  | .unreadable file fault => "reading " ++ file ++ ": " ++ fault.message
  | .notJson file fault => "parsing " ++ file ++ ": " ++ fault.message
  | .notValid file fault =>
    "validating " ++ file ++ ": " ++ (SchemaError.avro fault).message
  | .notImportable file e => "importing " ++ file ++ ": " ++ e.message
  | .notARecord file => file ++ " does not describe a record"
  | .refused e => e.message
  | .exportNotValid fault =>
    "validating exported schema: " ++ (SchemaError.avro fault).message
  | .tooWide => "outline is too wide"
  | .typesDiffer => "re-imported types differ from the original import"
  | .documentsDiffer => "exported schema is not a fixed point"
  | .failures count => toString count ++ " schemas do not round-trip"

/-- The fault ends the program at once. -/
def isFatal : CommandFault → Bool
  | .tooWide => true
  | .settings fault => fault.isFatal
  | .notValid _ fault | .exportNotValid fault | .refused (.avro fault) => fault.isFatal
  | _ => false

end CommandFault

/-- What a command prints, and why it fails if it does. -/
structure Report where
  output : String
  fault : Option CommandFault
  deriving Repr

namespace Report

/-- The report of a command that prints nothing and fails. -/
def failed (fault : CommandFault) : Report :=
  ⟨"", some fault⟩

/-- The report of a line or a fault, after what was printed before. -/
def line (before : String) : Except CommandFault String → Report
  | .ok text => ⟨before ++ text ++ "\n", none⟩
  | .error fault => ⟨before, some fault⟩

end Report

/-! ### Single schemas -/

namespace Command

/-- The types of a file's text. -/
def readTypes (settings : Settings) (file text : String) :
    Except CommandFault (Registry × Ty) := do
  let document ← (Json.read text).mapError (.notJson file)
  if settings.importValidate then
    let _ ← (Avro.Schema.ofJson document).mapError (.notValid file)
  (fromSchema 0 document).mapError (.notImportable file)

/-- The types of a file. -/
def readFile (settings : Settings) (file : String) (text : Except FileFault String) :
    Except CommandFault (Registry × Ty) := do
  readTypes settings file (← text.mapError (.unreadable file))

/-- The outline of a type. -/
def outlineText (settings : Settings) (r : Registry) (type : Ty) :
    Except CommandFault String :=
  (r.render? settings.indent "" type).elim (.error .tooWide) .ok

/-- The document of a type as text. -/
def documentText (settings : Settings) (r : Registry) (type : Ty) :
    Except CommandFault String := do
  let document ← (toSchema r type).mapError .refused
  if settings.exportValidate then
    let _ ← (Avro.Schema.ofJson document).mapError .exportNotValid
  return document.write settings.outputFormat

/-- The place of the struct that a file describes. -/
def rootOf (file : String) : Ty → Except CommandFault Nat
  | .named (.struct index) => .ok index
  | _ => .error (.notARecord file)

/-- The value of a literal for the field at a path. -/
def valueText (file path literal : String) (r : Registry) (type : Ty) :
    Except CommandFault String := do
  let root ← rootOf file type
  let type ← (r.resolve root (.parse path)).mapError .refused
  let value ← (r.parseValue type (some literal)).mapError .refused
  return (value.map Value.text).getD "(no value)"

/-- The report of an edit: what changes in the outline, and the document. -/
def editReport (settings : Settings) (file path : String) (edit : Edit)
    (types : Except CommandFault (Registry × Ty)) : Report :=
  let edited := do
    let (r, type) ← types
    let root ← rootOf file type
    -- The outline is taken before the edit, even if the edit is refused then.
    let before ← outlineText settings r type
    let r' ← (r.edit root (.parse path) edit).mapError .refused
    return (diff before (← outlineText settings r' type), r', type)
  match edited with
  | .error fault => .failed fault
  | .ok (changes, r', type) => .line (changes ++ "\n") (documentText settings r' type)

/-! ### Checks -/

/-- The fingerprint of a schema that survives export and import. -/
def checkTypes (types : Except CommandFault (Registry × Ty)) :
    Except CommandFault Fingerprint := do
  let (r, type) ← types
  let document ← (toSchema r type).mapError .refused
  let (r', type') ← (fromSchema 1 document).mapError .refused
  if r.sameType type r' type' = false then .error .typesDiffer
  -- What was imported again has to be exported as it was.
  let again ← (toSchema r' type').mapError .refused
  if again.same document = false then .error .documentsDiffer
  let schema ← (toAvro r type).mapError .refused
  (Fingerprint.of schema).mapError fun fault => .refused (.avro fault)

/-- The line of a checked file. -/
def checkLine (file : String) : Except CommandFault Fingerprint → String
  | .ok fingerprint => "✓ " ++ file ++ " " ++ fingerprint.text ++ "\n"
  | .error fault => "✗ " ++ file ++ ": " ++ fault.message ++ "\n"

/-- The report of a check, after what was printed for the files before. A fatal fault ends
    it. -/
def checkReport (output : String) (checked failed : Nat) :
    List (String × Except CommandFault Fingerprint) → Report
  | [] =>
    ⟨output ++ "\n" ++ toString checked ++ " schemas checked, " ++ toString failed ++
        " failed\n",
      if failed = 0 then none else some (.failures failed)⟩
  | (file, result) :: rest =>
    let output' := output ++ checkLine file result
    match result with
    | .ok _ => checkReport output' (checked + 1) failed rest
    | .error fault =>
      if fault.isFatal then ⟨output, some fault⟩
      else checkReport output' (checked + 1) (failed + 1) rest

variable {m : Type → Type} [Monad m]

/-- Check every schema below a directory. -/
def checkBelow (files : Files m) (settings : Settings) (directory : String) : m Report := do
  let names := (← files.below directory).filter (extension? · = some settings.extension)
  let results ← names.mapM fun name => do
    return (name, checkTypes (readFile settings name (← files.read name)))
  return checkReport "" 0 0 results

/-- Run a command under some settings. -/
def run (files : Files m) (settings : Settings) : Command → m Report
  | .outline file => do
    let types := readFile settings file (← files.read file)
    return .line "" (types >>= fun (r, type) => outlineText settings r type)
  | .canonical file => do
    let types := readFile settings file (← files.read file)
    return .line "" (types >>= fun (r, type) => documentText settings r type)
  | .check directory => checkBelow files settings directory
  | .rename file path byType name => do
    let edit := if byType then Edit.renameType name else .renameField name
    return editReport settings file path edit (readFile settings file (← files.read file))
  | .document file path byType text => do
    let edit := if byType then Edit.documentType text else .documentField text
    return editReport settings file path edit (readFile settings file (← files.read file))
  | .parseValue file path literal => do
    let types := readFile settings file (← files.read file)
    return .line "" (types >>= fun (r, type) => valueText file path literal r type)

end Command

/-! ### Command lines -/

variable {m : Type → Type} [Monad m]

/-- A command with the files and variables it sees. -/
def Invocation.run (invocation : Invocation) (files : Files m)
    (environment : List (String × String)) : m Report := do
  match ← Settings.load files invocation.settingsFile environment with
  | .error fault => return .failed (.settings fault)
  | .ok settings => invocation.command.run files settings

/-- How a command line ends: its exit code, and what it prints on either stream. -/
structure Ending where
  code : Nat
  output : String
  complaint : String
  deriving DecidableEq, Repr

/-- How a command ends with a report. -/
def Report.ending (report : Report) : Ending :=
  match report.fault with
  | none => ⟨0, report.output, ""⟩
  | some fault =>
    ⟨if fault.isFatal then 101 else 1, report.output, "Error: " ++ fault.message ++ "\n"⟩

/-- How to use the program. -/
def usage : String :=
  "Inspect and evolve Avro schemas\n\n" ++
    "Usage: datamodel [--config FILE] COMMAND\n\n" ++
    "Commands:\n" ++
    "  show FILE\n" ++
    "  export FILE\n" ++
    "  check DIR\n" ++
    "  rename FILE [--path PATH] [--type] NEW_NAME\n" ++
    "  document FILE [--path PATH] [--type] TEXT\n" ++
    "  parse-value FILE --path PATH LITERAL\n"

/-- Run a command line. -/
def runCommandLine (files : Files m) (environment : List (String × String))
    (words : List String) : m Ending := do
  match Invocation.read words with
  | .error .help => return ⟨0, usage, ""⟩
  | .error .misuse => return ⟨2, "", usage⟩
  | .ok invocation => return (← invocation.run files environment).ending

end Schemata
