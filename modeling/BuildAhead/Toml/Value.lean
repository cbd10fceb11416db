import BuildAhead.Json.Basic

set_option autoImplicit false

/-!
# Toml: values

The values of the TOML data format. A table remembers how it was begun, because that decides whether
later lines of a document may still add to it.
-/

namespace BuildAhead.Toml

/-- How a table was begun. -/
inductive Origin where
  /-- by its own header; the document itself counts as such a table -/
  | header
  /-- as a step in the header of another table -/
  | passage
  /-- as a step in a dotted key -/
  | dotted
  /-- between braces, all at once -/
  | inline
  deriving DecidableEq, Repr, Inhabited

/-- A TOML value. -/
inductive Value where
  | bool (b : Bool)
  | int (n : Int)
  | double (x : Binary64)
  | text (s : String)
  /-- a date, a time or both, in its normal form -/
  | moment (s : String)
  | array (items : List Value)
  | table (origin : Origin) (entries : List (String × Value))
  /-- tables that were begun one after the other under one name -/
  | tables (items : List (List (String × Value)))
  deriving Repr, Inhabited

namespace Value

/-- The name under which a moment appears where a format has no moments. -/
def momentKey : String := "$__toml_private_datetime"

/-- A double as a JSON value; infinite and undefined numbers have none and become `null`. -/
def doubleJson (x : Binary64) : Json := if x.isFinite then .double x else .null

mutual

/-- A value as a JSON value. A moment becomes an object with one member. -/
def toJson : Value → Json
  | .bool b => .bool b
  | .int n => .int n
  | .double x => doubleJson x
  | .text s => .text s
  | .moment s => .object [(momentKey, .text s)]
  | .array items => .array (itemsJson items)
  | .table _ entries => .object (entriesJson entries)
  | .tables items => .array (tablesJson items)

/-- The items of an array. -/
def itemsJson : List Value → List Json
  | [] => []
  | v :: rest => toJson v :: itemsJson rest

/-- The entries of a table. -/
def entriesJson : List (String × Value) → List (String × Json)
  | [] => []
  | (k, v) :: rest => (k, toJson v) :: entriesJson rest

/-- Tables of one name. -/
def tablesJson : List (List (String × Value)) → List Json
  | [] => []
  | t :: rest => .object (entriesJson t) :: tablesJson rest

end

end Value

end BuildAhead.Toml
