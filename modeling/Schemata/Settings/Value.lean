import Schemata.Entries
import Schemata.Json.Basic
import Schemata.Toml.Basic

/-!
# Values That Can Be Set

The values of a source of settings, in whatever format it is written. The
case of keys does not count, so the keys of every table are brought to small
letters; of two keys that become one the later counts.

Only the letters that become ASCII matter: the capital letters and the sign
for the unit of temperature, which becomes a small k.

## Main definitions

* `Setting`: A value.
* `Setting.ofToml`, `Setting.ofJson`: The values of documents.
* `Setting.lowerKeys`: A value with small letters in its keys.
-/

namespace Schemata

/-- A value that can be set. -/
inductive Setting where
  | nothing
  | boolean (value : Bool)
  | integer (value : Int)
  | float (value : Binary)
  | text (value : String)
  | list (items : List Setting)
  | table (members : List (String × Setting))
  deriving Repr

namespace Setting

instance : Inhabited Setting :=
  ⟨.nothing⟩

/-- The members of a table of settings. -/
abbrev Members :=
  List (String × Setting)

/-- The members of a table; what is no table has none. -/
def membersOf : Setting → Members
  | .table members => members
  | _ => []

/-- The items of a list; what is no list has none. -/
def itemsOf : Setting → List Setting
  | .list items => items
  | _ => []

/-! ### Small letters -/

/-- The small letter of a capital letter. -/
def lowerChar (c : Char) : Char :=
  if c = '\u212a' then 'k' else c.toLower

/-- A text in small letters. -/
def lowered (text : String) : String :=
  String.ofList (text.toList.map lowerChar)

mutual

/-- A value with small letters in the keys of its tables. -/
def lowerKeys : Setting → Setting
  | .table members => .table (lowerMembers [] members)
  | .list items => .list (lowerItems items)
  | value => value

/-- Members with small letters in their keys, added to others. -/
def lowerMembers (table : Members) : List (String × Setting) → Members
  | [] => table
  | (key, value) :: rest => lowerMembers (Entries.put (lowered key) (lowerKeys value) table) rest

/-- Items with small letters in the keys of their tables. -/
def lowerItems : List Setting → List Setting
  | [] => []
  | item :: rest => lowerKeys item :: lowerItems rest

end

/-! ### Documents -/

mutual

/-- The value of a part of a TOML document. -/
def ofToml : Toml → Setting
  | .boolean value => .boolean value
  | .integer value => .integer value
  | .float value => .float value
  | .string value => .text value
  | .moment written => .text written
  | .array items => .list (ofTomlItems items)
  | .table members => .table ((ofTomlMembers members).mergeSort fun a b => a.1 ≤ b.1)

/-- The members of a TOML table. -/
def ofTomlMembers : List (String × Toml) → Members
  | [] => []
  | (key, value) :: rest => (key, ofToml value) :: ofTomlMembers rest

/-- The items of a TOML array. -/
def ofTomlItems : List Toml → List Setting
  | [] => []
  | item :: rest => ofToml item :: ofTomlItems rest

end

mutual

/-- The value of a part of a JSON document. An integer of more than 64 bits with its sign is
    a floating-point number. -/
def ofJson : Json → Setting
  | .null => .nothing
  | .bool value => .boolean value
  | .int value =>
    if value ≤ Integer.Range.greatest (.signed 64) then .integer value
    else .float (Format.double.ofDecimal false value.toNat 0)
  | .float value => .float (.finite value)
  | .string value => .text value
  | .array items => .list (ofJsonItems items)
  | .object members => .table (ofJsonMembers members)

/-- The members of a JSON object. -/
def ofJsonMembers : List (String × Json) → Members
  | [] => []
  | (key, value) :: rest => (key, ofJson value) :: ofJsonMembers rest

/-- The items of a JSON array. -/
def ofJsonItems : List Json → List Setting
  | [] => []
  | item :: rest => ofJson item :: ofJsonItems rest

end

end Setting

end Schemata
