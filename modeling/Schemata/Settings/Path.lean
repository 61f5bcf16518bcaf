import Schemata.Number.Integer
import Schemata.Settings.Fault
import Schemata.Settings.Value
import Schemata.Text.Reader

/-!
# Paths to Settings

A path starts with a key and goes on with keys behind dots and with indices
in brackets. It leads through tables and lists; what is in its way is
replaced by an empty one of the kind that it needs, and lists are filled up
with nothing.

An index below zero counts from the end of a list, and must not lead in front
of it.

A table that is put in a place is merged with a table that is there, key by
key. A table without members changes nothing, whatever is there.

## Main definitions

* `Path`: A path.
* `Path.read`: The path that a text says; a text that says none is one key.
* `Path.assign`: Put a value at the end of a path.
-/

namespace Schemata

namespace Settings

/-- A step of a path. -/
inductive Step where
  | key (name : String)
  | index (position : Int)
  deriving DecidableEq, Repr

/-- A path from the top: a key, and further steps. -/
structure Path where
  first : String
  steps : List Step
  deriving DecidableEq, Repr

namespace Path

/-! ### Reading -/

open Text (Reader)
open Text.Reader (marks mark? takeWhile)

/-- The character can stand in a key of a path. -/
def isKeyChar (c : Char) : Bool :=
  c.isAlphanum || c == ' ' || c == '_' || c == '-'

/-- A key of a path. -/
def key : Reader String := do
  let cs ← takeWhile isKeyChar
  if cs = [] then failure else return String.ofList cs

/-- An index of a path, with blanks around it. -/
def index : Reader Int := do
  let isGap (c : Char) : Bool := c == ' ' || c == '\t'
  let _ ← takeWhile isGap
  let sign := if ← mark? ['-'] then ['-'] else []
  let digits ← takeWhile Char.isDigit
  let _ ← takeWhile isGap
  match (Integer.Range.signed 64).read (sign ++ digits) with
  | .ok position => return position
  | .error _ => failure

/-- The further steps of a path, no more than `fuel`. -/
def furtherSteps : (fuel : Nat) → Reader (List Step)
  | 0 => return []
  | fuel + 1 => do
    if ← mark? ['.'] then return .key (← key) :: (← furtherSteps fuel)
    else if ← mark? ['['] then
      let position ← index
      marks [']']
      return .index position :: (← furtherSteps fuel)
    else return []

/-- The path that a text says; a text that says none is one key. -/
def read (text : String) : Path :=
  let cs := text.toList
  let reader : Reader Path := return ⟨← key, ← furtherSteps cs.length⟩
  (reader.all? cs).getD ⟨text, []⟩

/-! ### Assigning -/

mutual

/-- A value laid over another: a table is merged, anything else replaces it. -/
def overlay (old : Option Setting) : Setting → Setting
  | .table members => overlayMembers (old.getD (.table [])) members
  | .nothing => .nothing
  | .boolean value => .boolean value
  | .integer value => .integer value
  | .float value => .float value
  | .text value => .text value
  | .list items => .list items

/-- Members laid over a value. If there are none, the value stays as it is. -/
def overlayMembers (old : Setting) : List (String × Setting) → Setting
  | [] => old
  | (key, value) :: rest =>
    let members := old.membersOf
    overlayMembers (.table (Entries.put key (overlay (members.lookup key) value) members)) rest

end

/-- The greatest index that a list can be filled up to. -/
def greatestIndex : Nat :=
  10000000

/-- The place of an index in a list of a length. -/
def place (length : Nat) : (position : Int) → Except Fault Nat
  | .ofNat n => if n ≤ greatestIndex then .ok n else .error (.outOfReach n)
  | .negSucc n =>
    if n < length then .ok (length - (n + 1)) else .error (.outOfReach (.negSucc n))

/-- Items with a place for an index; new places hold nothing. -/
def filledUp (items : List Setting) (place : Nat) : List Setting :=
  items ++ List.replicate (place + 1 - items.length) .nothing

/-- A value put at the end of some steps. -/
def assignSteps (value : Setting) : List Step → Setting → Except Fault Setting
  | [], _ => .ok value
  -- At the last key a table is merged into what is there. Anywhere else the value replaces it.
  | [.key name], old =>
    let members := old.membersOf
    .ok (.table (Entries.put name (overlay (members.lookup name) value) members))
  | .key name :: steps, old => do
    let members := old.membersOf
    let inner := (members.lookup name).getD .nothing
    return .table (Entries.put name (← assignSteps value steps inner) members)
  | .index position :: steps, old => do
    let place ← place old.itemsOf.length position
    let items := filledUp old.itemsOf place
    let inner := (items[place]?).getD .nothing
    return .list (items.set place (← assignSteps value steps inner))

/-- A value put at the end of a path. -/
def assign (path : Path) (value : Setting) (table : Setting.Members) :
    Except Fault Setting.Members := do
  return (← assignSteps value (.key path.first :: path.steps) (.table table)).membersOf

end Path

end Settings

end Schemata
