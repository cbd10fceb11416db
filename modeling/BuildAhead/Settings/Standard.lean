import BuildAhead.Settings.Document
import BuildAhead.Settings.Library
import BuildAhead.Settings.Merging

set_option autoImplicit false

/-!
# Settings: the standard library

The library that programs use: files in four formats, variables by the beginnings of their names in
any case, and layers entered one after the other into an empty tree.
-/

namespace BuildAhead

namespace SettingsLibrary

/-- A text with dots for the copies of a separator. The number counts the characters of a copy that
are still to be left out. -/
def dotted (separator : List Char) : Nat → List Char → List Char
  | _, [] => []
  | skipped + 1, _ :: cs => dotted separator skipped cs
  | 0, c :: cs =>
    if !separator.isEmpty && separator.isPrefixOf (c :: cs) then
      '.' :: dotted separator (separator.length - 1) cs
    else c :: dotted separator 0 cs

/-- The key that a variable sets, if its name says that it sets one. -/
def keyOfVariable? (word separator name : String) : Option String :=
  let lowered := Text.lower name
  let start := Text.lower (word ++ separator)
  if Text.startsWith lowered start then
    some (String.ofList (dotted separator.toList 0 (lowered.toList.drop start.length)))
  else none

/-- The settings that variables write. -/
def ofEnvironment (word separator : String) (e : Environment) : List (String × ConfigTree) :=
  e.filterMap fun v => (keyOfVariable? word separator v.1).map fun key => (key, .scalar v.2)

/-- A text without the mark of its byte order. -/
def withoutMark (text : String) : String :=
  match text.toList with
  | '\uFEFF' :: rest => String.ofList rest
  | _ => text

/-- The settings in a file. -/
def ofFile (tree : Files.Tree) (path : Files.Path) (format : DocumentFormat) :
    Except String (List (String × ConfigTree)) :=
  match tree.read path with
  | .error fault => .error fault.message
  | .ok text =>
    match ConfigTree.ofDocument? format (withoutMark text) with
    | some entries => .ok entries
    | none => .error ("the file " ++ path ++ " cannot be read")

/-- The text of a scalar; nothing else has one. -/
def scalarText : ConfigTree → Except String String
  | .scalar text => .ok text
  | _ => .error "a list can only hold texts, numbers and truth values"

/-- Files and variables are read here, and layers are entered in their order into one tree. -/
def standard : SettingsLibrary where
  checkKey key :=
    if (KeyPath.parse? key).isSome then .ok () else .error ("the key '" ++ key ++ "' is not a path")
  collect tree e source :=
    match source with
    | .file path format => ofFile tree path format
    | .environment word separator => .ok (ofEnvironment word separator e)
  merge layers := ((ConfigTree.table []).addSource layers.flatten).entriesOf
  text := scalarText

end SettingsLibrary

end BuildAhead
