import BuildAhead.Collection.Dict
import BuildAhead.Number.Binary64

set_option autoImplicit false

/-!
# Json: values

The values of the JSON data format. Integers and doubles are different values. An object keeps its
members in the order of the document, repeated keys included; `Json.canonical` is the value with
the members of every object in ascending order and, of members with one key, only the last.
-/

namespace BuildAhead

/-- A JSON value. -/
inductive Json where
  | null
  | bool (b : Bool)
  | int (n : Int)
  | double (x : Binary64)
  | text (s : String)
  | array (items : List Json)
  | object (members : List (String × Json))
  deriving Repr, Inhabited

namespace Json

/-- Every integer that fits the signed 64-bit range. -/
def inInt64 (n : Int) : Bool := -9223372036854775808 ≤ n && n ≤ 9223372036854775807

/-- Puts a member at its place in an ascending list, instead of one with the same key. -/
def insertMember (key : String) (value : Json) (members : List (String × Json)) :
    List (String × Json) :=
  Dict.alterEntries key (fun _ => value) members

mutual

/-- The value with the members of every object in ascending order, the last of equal keys. -/
def canonical : Json → Json
  | .array items => .array (canonicalItems items)
  | .object members => .object (canonicalMembers members [])
  | .null => .null
  | .bool b => .bool b
  | .int n => .int n
  | .double x => .double x
  | .text s => .text s

/-- The canonical values of a list, in order. -/
def canonicalItems : List Json → List Json
  | [] => []
  | v :: rest => canonical v :: canonicalItems rest

/-- Enters the canonical values of the members into `sorted`, the later ones last. -/
def canonicalMembers : List (String × Json) → List (String × Json) → List (String × Json)
  | [], sorted => sorted
  | (k, v) :: rest, sorted => canonicalMembers rest (insertMember k (canonical v) sorted)

end

/-- The first member with this key. -/
def member? (key : String) : Json → Option Json
  | .object members => Dict.lookup key members
  | _ => none

/-- A list of texts as a value. -/
def ofNames (names : List String) : Json := .array (names.map .text)

/-- An optional text as a value, `null` when absent. -/
def ofText? : Option String → Json
  | none => .null
  | some s => .text s

/-- A dictionary as an object. -/
def ofDict (d : Dict Json) : Json := .object d.toList

/-- A natural number as a value. -/
def ofNat (n : Nat) : Json := .int n

end Json

end BuildAhead
