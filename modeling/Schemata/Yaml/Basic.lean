import Schemata.Number.Integer
import Schemata.Number.Binary
import Schemata.Text.Code

/-!
# YAML Values

The values of a YAML document, and what a word without quotation marks says.
A number with a point or an exponent is kept as it is written; an integer has
64 bits with its sign, also in hexadecimal and octal.

## Main definitions

* `Yaml`: A value.
* `Yaml.ofWord`: The value of a word without quotation marks.
* `Yaml.tagged`: The value of a word with a tag in front.
-/

namespace Schemata

/-- A value of a YAML document. -/
inductive Yaml where
  | null
  | boolean (value : Bool)
  | integer (value : Int)
  /-- A number that is no integer, as it is written. -/
  | real (written : String)
  | string (text : String)
  | sequence (items : List Yaml)
  | mapping (entries : List (Yaml × Yaml))
  deriving Repr

namespace Yaml

instance : Inhabited Yaml :=
  ⟨.null⟩

mutual

/-- The two values are equal. -/
def same : Yaml → Yaml → Bool
  | .null, .null => true
  | .boolean a, .boolean b => a == b
  | .integer a, .integer b => a == b
  | .real a, .real b => a == b
  | .string a, .string b => a == b
  | .sequence as, .sequence bs => sameItems as bs
  | .mapping as, .mapping bs => sameEntries as bs
  | _, _ => false

/-- The two lists have equal items in one order. -/
def sameItems : List Yaml → List Yaml → Bool
  | [], [] => true
  | a :: as, b :: bs => same a b && sameItems as bs
  | _, _ => false

/-- The two lists have equal keys and values in one order. -/
def sameEntries : List (Yaml × Yaml) → List (Yaml × Yaml) → Bool
  | [], [] => true
  | (j, a) :: as, (k, b) :: bs => same j k && same a b && sameEntries as bs
  | _, _ => false

end

/-! ### Words -/

/-- The integers that a word can say. -/
def integerRange : Integer.Range :=
  .signed 64

/-- The integer of digits in a base, with a sign or without. -/
def based? (base : Nat) (digits : List Char) : Option Int := do
  let (negative, digits) :=
    match digits with
    | '-' :: digits => (true, digits)
    | '+' :: digits => (false, digits)
    | digits => (false, digits)
  let values ← digits.mapM Text.hexDigit?
  guard (values ≠ [] ∧ values.all (· < base))
  let magnitude := values.foldl (fun n d => base * n + d) 0
  let n : Int := if negative then -magnitude else magnitude
  guard (integerRange.least ≤ n ∧ n ≤ integerRange.greatest)
  return n

/-- The integer of a word. -/
def integer? (word : List Char) : Option Int :=
  let decimal :=
    match integerRange.read word with
    | .ok n => some n
    | .error _ => none
  match word with
  | '0' :: 'x' :: digits => based? 16 digits
  | '0' :: 'o' :: digits => based? 8 digits
  | _ => decimal

/-- The words for numbers that have no digits. -/
def unboundedWords : List String :=
  [".inf", ".Inf", ".INF", "+.inf", "+.Inf", "+.INF", "-.inf", "-.Inf", "-.INF",
    ".nan", ".NaN", ".NAN"]

/-- The word says a number. A number of digits has one of them at least. -/
def isReal (word : String) : Bool :=
  word ∈ unboundedWords ||
    (word.toList.any Char.isDigit && (Format.double.read word).toBool)

/-- The value of a word without quotation marks. -/
def ofWord (word : String) : Yaml :=
  match integer? word.toList with
  | some n => .integer n
  | none =>
    match word with
    | "" | "~" | "null" => .null
    | "true" => .boolean true
    | "false" => .boolean false
    | word => if isReal word then .real word else .string word

/-- The value of a word without quotation marks, behind a tag. Only the tags of the language
    itself give it another type; what does not fit that is nothing. -/
def tagged (tag word : String) : Yaml :=
  match tag with
  | "!!bool" =>
    match word with
    | "true" => .boolean true
    | "false" => .boolean false
    | _ => .null
  | "!!int" =>
    match integerRange.read word.toList with
    | .ok n => .integer n
    | .error _ => .null
  | "!!float" => if isReal word then .real word else .null
  | "!!null" => .null
  | _ => .string word

end Yaml

end Schemata
