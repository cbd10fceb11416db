import BuildAhead.Files.Tree
import BuildAhead.Settings.ConfigTree

set_option autoImplicit false

/-!
# Settings: the library of sources

Settings are read from files and variables, and merged, by a library. Here is what it is asked for
and what it can be asked; how it reads a file, a variable or a key, and how it merges, is its own
matter.
-/

namespace BuildAhead

/-- The environment variables of a process. -/
abbrev Environment : Type := List (String × String)

namespace Environment

/-- The value of a variable. -/
def get? (e : Environment) (name : String) : Option String := Dict.lookup name e

end Environment

/-- The formats of configuration files. -/
inductive DocumentFormat where
  | json
  | yaml
  | ini
  | toml
  deriving DecidableEq, Repr, Inhabited

namespace DocumentFormat

/-- The format of a file, by the ending of its name; TOML unless it says otherwise. -/
def ofPath (path : Files.Path) : DocumentFormat :=
  match (Files.Path.extension? path).map Text.asciiLower with
  | some "json" => .json
  | some "yaml" => .yaml
  | some "yml" => .yaml
  | some "properties" => .ini
  | some "ini" => .ini
  | _ => .toml

end DocumentFormat

/-- Where settings are written. -/
inductive SettingsSource where
  /-- a file that must be there -/
  | file (path : Files.Path) (format : DocumentFormat)
  /-- the variables whose names begin with a word and a separator; further separators in a name are
  the dots of a key -/
  | environment (word separator : String)
  deriving DecidableEq, Repr

/-- What collects the settings of sources and merges them. -/
structure SettingsLibrary where
  /-- tells why a key cannot be set on its own, if it cannot -/
  checkKey : String → Except String Unit
  /-- the entries of a source, in whatever order, or why they cannot be read -/
  collect : Files.Tree → Environment → SettingsSource → Except String (List (String × ConfigTree))
  /-- the entries that layers are merged into, in whatever order; the lowest layer is the first -/
  merge : List (List (String × ConfigTree)) → List (String × ConfigTree)
  text : TextReader

end BuildAhead
