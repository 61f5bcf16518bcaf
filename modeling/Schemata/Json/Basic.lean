import Schemata.Number.Binary

/-!
# JSON Values

Documents as values. An integer is kept apart from a floating-point number:
`1` and `1.0` are different documents. A floating-point number is always
finite, since a document cannot write any other.

The members of an object are a list. The reader keeps it sorted by key with no
key twice, which is the order in which members are written.

`same` is the equality of documents. It differs from equality of values in
one point: zero and negative zero are the same number.

## Main definitions

* `Json`: A document.
* `Json.insert`: Add a member to sorted members, replacing one of the same key.
* `Json.find?`: The value of a member.
* `Json.same`: The two documents are equal.
* `Json.depth`: How deep a document nests.
-/

namespace Schemata

/-- A JSON document. -/
inductive Json where
  | null
  | bool (value : Bool)
  | int (value : Int)
  | float (value : Finite)
  | string (value : String)
  | array (items : List Json)
  | object (members : List (String × Json))
  deriving Repr

namespace Json

instance : Inhabited Json :=
  ⟨.null⟩

/-- Add a member to sorted members; one of the same key is replaced. -/
def insert (key : String) (value : Json) : List (String × Json) → List (String × Json)
  | [] => [(key, value)]
  | (k, v) :: rest =>
    if key < k then (key, value) :: (k, v) :: rest
    else if key = k then (key, value) :: rest
    else (k, v) :: insert key value rest

/-- The value of the first member with a key. -/
def find? (key : String) : List (String × Json) → Option Json
  | [] => none
  | (k, v) :: rest => if k = key then some v else find? key rest

/-- The text, if the document is a string. -/
def string? : Json → Option String
  | .string value => some value
  | _ => none

/-- The items, if the document is a list. -/
def array? : Json → Option (List Json)
  | .array items => some items
  | _ => none

/-- The members, if the document is an object. -/
def object? : Json → Option (List (String × Json))
  | .object members => some members
  | _ => none

/-- The number, if the document is an integer that is not negative. -/
def nat? : Json → Option Nat
  | .int (.ofNat n) => some n
  | _ => none

/-- The two numbers are equal; the sign of zero does not count. -/
def sameNumber (a b : Finite) : Bool :=
  a == b || (a.mantissa == 0 && b.mantissa == 0)

mutual

/-- The two documents are equal. -/
def same : Json → Json → Bool
  | .null, .null => true
  | .bool a, .bool b => a == b
  | .int a, .int b => a == b
  | .float a, .float b => sameNumber a b
  | .string a, .string b => a == b
  | .array as, .array bs => sameItems as bs
  | .object as, .object bs => sameMembers as bs
  | _, _ => false

/-- The two lists have equal items in one order. -/
def sameItems : List Json → List Json → Bool
  | [], [] => true
  | a :: as, b :: bs => same a b && sameItems as bs
  | _, _ => false

/-- The two member lists have equal keys and values in one order. -/
def sameMembers : List (String × Json) → List (String × Json) → Bool
  | [], [] => true
  | (j, a) :: as, (k, b) :: bs => j == k && same a b && sameMembers as bs
  | _, _ => false

end

mutual

/-- How deep lists and objects nest. -/
def depth : Json → Nat
  | .array items => itemsDepth items + 1
  | .object members => membersDepth members + 1
  | _ => 0

/-- The depth of the deepest item. -/
def itemsDepth : List Json → Nat
  | [] => 0
  | item :: rest => max (depth item) (itemsDepth rest)

/-- The depth of the deepest value. -/
def membersDepth : List (String × Json) → Nat
  | [] => 0
  | (_, value) :: rest => max (depth value) (membersDepth rest)

end

end Json

end Schemata
