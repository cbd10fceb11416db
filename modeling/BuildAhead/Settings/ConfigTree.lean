import BuildAhead.BuildError
import BuildAhead.Collection.Dict
import BuildAhead.Settings.Basic

set_option autoImplicit false

/-!
# Settings: trees

Settings before they are flattened: a tree of tables and lists whose leaves are scalars. A scalar
stands for what its text says. Flattening puts the values of a tree under dotted keys; how the text
of a value is found is left open here.
-/

namespace BuildAhead

/-- A tree of settings. -/
inductive ConfigTree where
  /-- no value at all -/
  | absent
  | scalar (text : String)
  | list (items : List ConfigTree)
  | table (entries : List (String × ConfigTree))
  deriving Repr, Inhabited

/-- What tells the text of a value, or why it has none. -/
abbrev TextReader : Type := ConfigTree → Except String String

namespace ConfigTree

/-- The table of these entries; of two with one name the later counts. -/
def ofEntries (entries : List (String × ConfigTree)) : ConfigTree :=
  .table (Dict.ofList entries).toList

/-- The entries of a table; other trees have none. -/
def entriesOf : ConfigTree → List (String × ConfigTree)
  | .table entries => entries
  | _ => []

/-! ## Flattening -/

section Flattening

variable (text : TextReader)

/-- The text of a value. -/
def textOf (tree : ConfigTree) : Except BuildError String := (text tree).mapError .configuration

mutual

/-- The values of a tree under their dotted keys. -/
def flatten (key : String) : ConfigTree → Except BuildError (List (String × SettingValue))
  | .absent => .ok []
  | .scalar s => (textOf text (.scalar s)).map fun value => [(key, .scalar value)]
  | .list items => (items.mapM (textOf text)).map fun values => [(key, .list values)]
  | .table entries => flattenEntries (key ++ ".") entries

/-- The values of entries, whose keys are put behind `base`. -/
def flattenEntries (base : String) :
    List (String × ConfigTree) → Except BuildError (List (String × SettingValue))
  | [] => .ok []
  | (k, v) :: rest => do
    let values ← flatten (base ++ k) v
    return values ++ (← flattenEntries base rest)

end

/-- The settings of a tree. -/
def settings (tree : ConfigTree) : Except BuildError Settings := do
  let values ← flattenEntries text "" tree.entriesOf
  return .ofValues (Dict.ofList values).toList

end Flattening

end ConfigTree

end BuildAhead
