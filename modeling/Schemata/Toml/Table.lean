import Schemata.Entries
import Schemata.Toml.Basic

/-!
# Tables under Construction

How headers and dotted keys build up the tables of a document. Each table may
be described in one place only. A table that is only passed through on the
way to another is left open: its own header may still come, or, if dotted
keys made it, more dotted keys.

## Main definitions

* `Node`: A part of a document under construction.
* `assign?`: Give a dotted key a value.
* `openTable?`, `openItem?`: What a header does.
* `toMembers`: The finished tables.
-/

namespace Schemata

namespace Toml

/-- How a table came to be. -/
inductive Origin where
  /-- A header describes it. -/
  | header
  /-- It was passed through by a header. -/
  | passed
  /-- It was passed through by a dotted key. -/
  | dotted
  deriving DecidableEq, Repr

/-- A part of a document under construction. -/
inductive Node where
  | value (value : Toml)
  | table (origin : Origin) (members : List (String × Node))
  /-- A list of tables, each with a header of its own; the last one is still open. -/
  | tables (done : List (List (String × Node))) (last : List (String × Node))
  deriving Repr

namespace Node

/-- Members of a table under construction. -/
abbrev Members :=
  List (String × Node)

/-- Change the member with a key; without one the change starts from nothing. -/
def change? (key : String) (step : Option Node → Option Node) (members : Members) :
    Option Members := do
  return Entries.put key (← step (members.lookup key)) members

/-- Give a dotted key a value, below a table of some origin. -/
def assign? (value : Toml) : List String → Members → Option Members
  | [], _ => none
  | [key], members =>
    match members.lookup key with
    | none => some (Entries.put key (.value value) members)
    | some _ => none
  | key :: next :: path, members =>
    members |> change? key fun
      | none => return .table .dotted (← assign? value (next :: path) [])
      | some (.table .dotted inner) =>
        return .table .dotted (← assign? value (next :: path) inner)
      | some (.table .passed inner) =>
        if path = [] then none
        else return .table .passed (← assign? value (next :: path) inner)
      | some (.tables done inner) =>
        if path = [] then none
        else return .tables done (← assign? value (next :: path) inner)
      | some _ => none

/-- Change what is at the end of a header's path. -/
def follow? (last : Option Node → Option Node) : List String → Members → Option Members
  | [], _ => none
  | [key], members => change? key last members
  | key :: next :: path, members =>
    members |> change? key fun
      | none => return .table .passed (← follow? last (next :: path) [])
      | some (.table origin inner) =>
        return .table origin (← follow? last (next :: path) inner)
      -- A list of tables stands for its last one.
      | some (.tables done inner) =>
        return .tables done (← follow? last (next :: path) inner)
      | some (.value _) => none

/-- The header of a table: there is none yet, or it was only passed through. -/
def openTable? : List String → Members → Option Members :=
  follow? fun
    | none => some (.table .header [])
    | some (.table .passed inner) => some (.table .header inner)
    | some _ => none

/-- The header of one more table of a list. -/
def openItem? : List String → Members → Option Members :=
  follow? fun
    | none => some (.tables [] [])
    | some (.tables done last) => some (.tables (done ++ [last]) [])
    | some _ => none

/-- Give a dotted key a value in the table of the latest header. -/
def assignBelow? (path : List String) (key : List String) (value : Toml) (members : Members) :
    Option Members :=
  if path = [] then assign? value key members
  else
    members |> follow? (fun
      | some (.table origin inner) => return .table origin (← assign? value key inner)
      | some (.tables done last) => return .tables done (← assign? value key last)
      | _ => none) path

mutual

/-- The value of a finished part. -/
def toToml : Node → Toml
  | .value content => content
  | .table _ members => .table (toMembers members)
  | .tables done last => .array (toItems done ++ [.table (toMembers last)])

/-- The members of a finished table. -/
def toMembers : List (String × Node) → List (String × Toml)
  | [] => []
  | (key, node) :: rest => (key, toToml node) :: toMembers rest

/-- The tables of a finished list. -/
def toItems : List (List (String × Node)) → List Toml
  | [] => []
  | members :: rest => .table (toMembers members) :: toItems rest

end

end Node

end Toml

end Schemata
