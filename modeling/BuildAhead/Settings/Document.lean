import BuildAhead.Ini.Reader
import BuildAhead.Json.Reader
import BuildAhead.Settings.Library
import BuildAhead.Toml.Reader
import BuildAhead.Yaml.Reader

set_option autoImplicit false

/-!
# Settings: documents

Settings as they are written in files, in one of four formats. Every scalar becomes a text: integers
in base ten, other numbers without an exponent, truth values as `true` and `false`. The root of a
document must be a table.
-/

namespace BuildAhead

/-- The text of an integer; outside the signed range of 64 bits it is written as a double. -/
def Decimal.ofWideInt (n : Int) : String :=
  if Json.inInt64 n then Decimal.ofInt n else (Binary64.ofNat n.natAbs).positional

namespace Json

mutual

/-- A JSON value as a tree of settings. -/
def toTree : Json → ConfigTree
  | .null => .absent
  | .bool b => .scalar (if b then "true" else "false")
  | .int n => .scalar (Decimal.ofWideInt n)
  | .double x => .scalar x.positional
  | .text s => .scalar s
  | .array items => .list (itemsTree items)
  | .object members => .ofEntries (membersTree members)

/-- The items of an array. -/
def itemsTree : List Json → List ConfigTree
  | [] => []
  | v :: rest => toTree v :: itemsTree rest

/-- The members of an object. -/
def membersTree : List (String × Json) → List (String × ConfigTree)
  | [] => []
  | (k, v) :: rest => (k, toTree v) :: membersTree rest

end

end Json

namespace Toml.Value

mutual

/-- A TOML value as a tree of settings. A moment is written in its normal form. -/
def toTree : Value → ConfigTree
  | .bool b => .scalar (if b then "true" else "false")
  | .int n => .scalar (Decimal.ofInt n)
  | .double x => .scalar x.positional
  | .text s => .scalar s
  | .moment s => .scalar s
  | .array items => .list (itemsTree items)
  | .table _ entries => .table (entriesTree entries)
  | .tables items => .list (tablesTree items)

/-- The items of an array. -/
def itemsTree : List Value → List ConfigTree
  | [] => []
  | v :: rest => toTree v :: itemsTree rest

/-- The entries of a table. -/
def entriesTree : List (String × Value) → List (String × ConfigTree)
  | [] => []
  | (k, v) :: rest => (k, toTree v) :: entriesTree rest

/-- Tables of one name. -/
def tablesTree : List (List (String × Value)) → List ConfigTree
  | [] => []
  | t :: rest => .table (entriesTree t) :: tablesTree rest

end

end Toml.Value

namespace Ini.Section

/-- The entries of a section as texts. -/
def scalars (s : Section) : List (String × ConfigTree) :=
  s.entries.map fun (k, v) => (k, .scalar v)

/-- What a section adds to the settings: a table of its name, or its entries when it has none. -/
def toEntries (s : Section) : List (String × ConfigTree) :=
  match s.name with
  | some name => [(name, .ofEntries s.scalars)]
  | none => s.scalars

end Ini.Section

namespace ConfigTree

/-- The entries of a tree that must be a table. -/
def rootEntries? : ConfigTree → Option (List (String × ConfigTree))
  | .table entries => some entries
  | _ => none

/-- The settings that a document writes; none when it cannot be read. -/
def ofDocument? (format : DocumentFormat) (text : String) :
    Option (List (String × ConfigTree)) := do
  match format with
  | .json => rootEntries? (← Json.read? text).toTree
  | .toml => (Toml.read? text).map Toml.Value.entriesTree
  | .ini => rootEntries? (.ofEntries ((← Ini.read? text).flatMap Ini.Section.toEntries))
  | .yaml =>
    match ← Yaml.read? text with
    | none => some []
    | some node => rootEntries? (← node.toTree)

end ConfigTree

end BuildAhead
