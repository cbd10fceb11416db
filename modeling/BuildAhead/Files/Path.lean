import BuildAhead.Text.Pieces

set_option autoImplicit false

/-!
# Files: paths

Paths as texts. A path is absolute when it begins with a slash; its segments are the stretches
between slashes. Empty segments, and dots that do not begin a relative path, say nothing.
-/

namespace BuildAhead.Files

/-- A path, as it is written and shown. -/
abbrev Path : Type := String

namespace Path

/-- Whether the path begins at the root. -/
def isAbsolute (p : Path) : Bool := p.toList.head? == some '/'

/-- The stretches between the slashes, behind the first slash of an absolute path. -/
def stretches (p : Path) : List String :=
  let cut := Text.pieces (· == '/') p
  if isAbsolute p then cut.drop 1 else cut

/-- The segments that lead somewhere: names and steps upwards. -/
def segments (p : Path) : List String := (stretches p).filter fun s => s != "" && s != "."

/-- Two paths are the same when they have the same segments from the same start. -/
def key (p : Path) : Bool × List String := (isAbsolute p, segments p)

/-- The path `p` seen from `base`: `p` itself when it is absolute. -/
def join (base p : Path) : Path :=
  if isAbsolute p || base.isEmpty then p
  else if Text.endsWith base "/" then base ++ p
  else base ++ "/" ++ p

/-- The stretches, the last one first, without those at the end that say nothing. -/
def trimmedBack : List String → List String
  | [] => []
  | [s] => if s == "" then [] else [s]
  | s :: rest => if s == "" || s == "." then trimmedBack rest else s :: rest

/-- The path without its last segment; a root and an empty path have none. -/
def parent? (p : Path) : Option Path :=
  match trimmedBack (stretches p).reverse with
  | [] => none
  | _ :: rest =>
    let above := Text.joined "/" (trimmedBack rest).reverse
    some (if isAbsolute p then "/" ++ above else above)

/-- The last segment when it is a name. -/
def fileName? (p : Path) : Option String :=
  match (segments p).getLast? with
  | some name => if name = ".." then none else some name
  | none => none

/-- What stands behind the last dot of the file name; a dot at its beginning does not count. -/
def extension? (p : Path) : Option String :=
  match fileName? p with
  | none => none
  | some name =>
    match name.toList with
    | [] => none
    | _ :: rest => if rest.contains '.' then some (Text.afterLastDot name) else none

example : parent? "out//a/./b" = some "out//a" := by decide +kernel
example : parent? "out/" = some "" := by decide +kernel
example : extension? "x/app.TOML" = some "TOML" := by decide +kernel
example : extension? ".toml" = none := by decide +kernel

end Path

end BuildAhead.Files
