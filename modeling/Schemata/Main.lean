import Schemata.Command.Run

/-!
# The Program

The command line over the files of the disk and the variables of the
environment.
-/

namespace Schemata

/-- Why an attempt to read a file failed. -/
def FileFault.ofError : IO.Error → FileFault
  | .noFileOrDirectory .. => .notFound
  | .inappropriateType .. => .notADirectory
  | e => .other (toString e)

/-- The number of directories that a search goes down at most. -/
def searchDepth : Nat :=
  256

/-- The names of the files at or below a place, in order. -/
def filesBelow : (depth : Nat) → String → IO (List String)
  | 0, _ => return []
  | depth + 1, name => do
    let place ← IO.FS.realPath name
    if ← place.isDir then
      let entries := (← place.readDir).toList.map (·.fileName)
      let front := if name.endsWith "/" then name else name ++ "/"
      let names ← (entries.mergeSort).mapM fun entry => filesBelow depth (front ++ entry)
      return names.flatten
    else return [name]

/-- The files of the disk. -/
def diskFiles : Files IO where
  read name := do
    try
      if ← (← IO.FS.realPath name).isDir then return .error .isDirectory
      else return .ok (← IO.FS.readFile name)
    catch e => return .error (.ofError e)
  isFile name := do
    try return !(← (← IO.FS.realPath name).isDir)
    catch _ => return false
  below name := do
    try filesBelow searchDepth name
    catch _ => return []

/-- The variables that can be settings, in capital and in small letters. -/
def variableNames : List String :=
  let names := ["DATAMODEL__IMPORT__VALIDATE", "DATAMODEL__EXPORT__OUTPUT_FORMAT",
    "DATAMODEL__EXPORT__VALIDATE", "DATAMODEL__RENDER__INDENT", "DATAMODEL__CHECK__EXTENSION"]
  names ++ names.map Setting.lowered

end Schemata

open Schemata

/-- Run the command line, print what it prints, and end with its code. -/
def main (words : List String) : IO UInt32 := do
  let settings ← variableNames.mapM fun name => do
    return (← IO.getEnv name).map fun text => (name, text)
  let ending ← runCommandLine diskFiles (settings.filterMap id) words
  IO.print ending.output
  IO.eprint ending.complaint
  return UInt32.ofNat ending.code
