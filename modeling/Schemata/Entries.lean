/-!
# Entries Under Keys

Values that are kept under texts, in the order in which the texts came. Where
one text stands several times a lookup finds the first of its values.

## Main definitions

* `Entries.put`: A value under a key, in the place of what is there.
-/

namespace Schemata

namespace Entries

/-- Put a value under a key, in the place of what is there, or behind all others. -/
def put (key : String) (value : α) : List (String × α) → List (String × α)
  | [] => [(key, value)]
  | (k, v) :: rest => if k = key then (k, value) :: rest else (k, v) :: put key value rest

end Entries

end Schemata
