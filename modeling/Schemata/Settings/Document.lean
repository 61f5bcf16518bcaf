import Schemata.Json.Reader
import Schemata.Settings.Fault
import Schemata.Settings.Format.Ini
import Schemata.Settings.Format.Json5
import Schemata.Settings.Format.Ron
import Schemata.Toml.Reader
import Schemata.Yaml.Reader

/-!
# Documents with Settings

The formats that files with settings may have, known by their extensions, and
what a text of each format says. A byte order mark in front of a text does
not count.

A YAML file holds one document or none. Its keys are texts or integers.

## Main definitions

* `DocumentFormat`: A format.
* `DocumentFormat.ofExtension?`: The format of an extension.
* `DocumentFormat.read`: What a text says.
-/

namespace Schemata

/-- A format of files with settings. -/
inductive DocumentFormat where
  | toml
  | json
  | yaml
  | ini
  | ron
  | json5
  deriving DecidableEq, Repr

namespace DocumentFormat

/-- Every format. -/
def all : List DocumentFormat :=
  [.toml, .json, .yaml, .ini, .ron, .json5]

/-- The extensions of a format. -/
def extensions : DocumentFormat → List String
  | .toml => ["toml"]
  | .json => ["json"]
  | .yaml => ["yaml", "yml"]
  | .ini => ["ini"]
  | .ron => ["ron"]
  | .json5 => ["json5"]

/-- The format of an extension. -/
def ofExtension? (extension : String) : Option DocumentFormat :=
  all.find? (extension ∈ ·.extensions)

end DocumentFormat

open Settings (Fault)

namespace Setting

mutual

/-- The value of a part of a YAML document. -/
def ofYaml (file : String) : Yaml → Except Fault Setting
  | .null => .ok .nothing
  | .boolean value => .ok (.boolean value)
  | .integer value => .ok (.integer value)
  | .real written =>
    match Format.double.read written with
    | .ok value => .ok (.float value)
    | .error _ => .error (.malformed file)
  | .string value => .ok (.text value)
  | .sequence items => return .list (← ofYamlItems file items)
  | .mapping entries => return .table (← ofYamlEntries file entries)

/-- The items of a YAML sequence. -/
def ofYamlItems (file : String) : List Yaml → Except Fault (List Setting)
  | [] => .ok []
  | item :: rest => do
    let item ← ofYaml file item
    return item :: (← ofYamlItems file rest)

/-- The entries of a YAML mapping. -/
def ofYamlEntries (file : String) : List (Yaml × Yaml) → Except Fault Members
  | [] => .ok []
  | (key, value) :: rest => do
    let key ←
      match key with
      | .string key => .ok key
      | .integer key => .ok (toString key)
      | _ => .error (.unusableKey file)
    let value ← ofYaml file value
    return (key, value) :: (← ofYamlEntries file rest)

end

/-- The value of the documents of a YAML text. -/
def ofDocuments (file : String) : List Yaml → Except Fault Setting
  | [] => .ok (.table [])
  | [document] => ofYaml file document
  | _ => .error (.malformed file)

end Setting

namespace DocumentFormat

/-- What a text of a format says; `file` is where it comes from. -/
def read (format : DocumentFormat) (file text : String) : Except Fault Setting :=
  let text :=
    match text.toList with
    | '\ufeff' :: cs => String.ofList cs
    | _ => text
  let orMalformed (result : Option Setting) : Except Fault Setting :=
    result.elim (.error (.malformed file)) .ok
  match format with
  | .toml => orMalformed ((Toml.read? text).map (Setting.ofToml <| .table ·))
  | .json =>
    match Json.read text with
    | .ok document => .ok (.ofJson document)
    | .error _ => .error (.malformed file)
  | .yaml =>
    match Yaml.read? text with
    | some documents => Setting.ofDocuments file documents
    | none => .error (.malformed file)
  | .ini => orMalformed (Ini.read? text)
  | .ron => orMalformed (Ron.read? text)
  | .json5 => orMalformed (Json5.read? text)

end DocumentFormat

end Schemata
