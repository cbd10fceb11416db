import BuildAhead.Files.Path

set_option autoImplicit false

/-!
# Files: trees

A file tree as a value: which places hold folders and which hold files, and with what text. Its
operations fail for the causes, and with the texts, of a POSIX system. A step upwards leads to the
folder above the place reached so far, which must exist.
-/

namespace BuildAhead.Files

/-- A place in a file tree: the names from the root on. -/
abbrev Place : Type := List String

/-- What a place holds. -/
inductive Node where
  | folder
  | file (text : String)
  deriving DecidableEq, Repr, Inhabited

/-- Why an operation on files fails. -/
inductive Fault where
  | notFound
  | exists
  | notDirectory
  | isDirectory
  | nameTooLong
  | nulByte
  /-- a cause that the caller states -/
  | other (reason : String)
  deriving DecidableEq, Repr, Inhabited

/-- The system's text for a fault. -/
def Fault.message : Fault → String
  | .notFound => "No such file or directory (os error 2)"
  | .exists => "File exists (os error 17)"
  | .notDirectory => "Not a directory (os error 20)"
  | .isDirectory => "Is a directory (os error 21)"
  | .nameTooLong => "File name too long (os error 36)"
  | .nulByte => "file name contained an unexpected NUL byte"
  | .other reason => reason

/-- A file tree and the folder from which relative paths lead. The root is always a folder. -/
structure Tree where
  nodes : List (Place × Node) := []
  workingFolder : Place := []
  deriving Repr, Inhabited

namespace Tree

/-- What is at a place. -/
def node? (t : Tree) (p : Place) : Option Node :=
  if p = [] then some .folder else (t.nodes.find? fun n => n.1 == p).map (·.2)

/-- The tree with a node at a place, whatever was there. -/
def put (t : Tree) (p : Place) (n : Node) : Tree :=
  { t with nodes := (p, n) :: t.nodes.filter fun m => m.1 != p }

/-- The tree without what was at a place. -/
def drop (t : Tree) (p : Place) : Tree :=
  { t with nodes := t.nodes.filter fun m => m.1 != p }

/-- Whether a name can be used at all. -/
def checkName (name : String) : Except Fault Unit :=
  if name.toList.contains '\x00' then .error .nulByte
  else if 255 < name.utf8ByteSize then .error .nameTooLong
  else .ok ()

/-- The place reached from a place by segments, each of which must be a folder. -/
def walk (t : Tree) (start : Place) : List String → Except Fault Place
  | [] => .ok start
  | s :: rest =>
    if s = ".." then walk t start.dropLast rest
    else do
      checkName s
      match t.node? (start ++ [s]) with
      | some .folder => walk t (start ++ [s]) rest
      | some (.file _) => .error .notDirectory
      | none => .error .notFound

/-- Where a path begins. -/
def startOf (t : Tree) (p : Path) : Place :=
  if Path.isAbsolute p then [] else t.workingFolder

/-- The place of the last segment of a path; none when the path ends in a step upwards or has no
segment, so that it can only mean a folder. -/
def locate (t : Tree) (p : Path) : Except Fault (Option Place) := do
  match (Path.segments p).reverse with
  | [] => return none
  | last :: above =>
    let folder ← t.walk (t.startOf p) above.reverse
    if last = ".." then return none
    checkName last
    return some (folder ++ [last])

/-- Whether the path ends in a slash or a dot, so that it can only mean a folder. -/
def meansFolder (p : Path) : Bool :=
  match (Path.stretches p).getLast? with
  | some last => last == "" || last == "."
  | none => true

/-- The tree in which the file at a path has the text that `f` makes of its text before. -/
def store (t : Tree) (p : Path) (f : Option String → String) : Except Fault Tree := do
  if p.isEmpty then throw .notFound
  match ← t.locate p with
  | none => throw .isDirectory
  | some place =>
    match t.node? place with
    | some .folder => throw .isDirectory
    | some (.file text) =>
      if meansFolder p then throw .notDirectory else return t.put place (.file (f (some text)))
    | none => if meansFolder p then throw .isDirectory else return t.put place (.file (f none))

/-- Writes a file, in place of an older one. -/
def write (t : Tree) (p : Path) (text : String) : Except Fault Tree := t.store p fun _ => text

/-- Writes at the end of a file, which need not exist. -/
def append (t : Tree) (p : Path) (text : String) : Except Fault Tree :=
  t.store p fun old => old.getD "" ++ text

/-- Removes a file. -/
def remove (t : Tree) (p : Path) : Except Fault Tree := do
  if p.isEmpty then throw .notFound
  match ← t.locate p with
  | none => throw .isDirectory
  | some place =>
    match t.node? place with
    | some .folder => throw .isDirectory
    | some (.file _) => if meansFolder p then throw .notDirectory else return t.drop place
    | none => throw .notFound

/-- Removes a file if there is one. -/
def removeIfPresent (t : Tree) (p : Path) : Except Fault Tree :=
  match t.remove p with
  | .error .notFound => .ok t
  | outcome => outcome

/-- What is at a path. -/
def nodeAt (t : Tree) (p : Path) : Except Fault Node := do
  if p.isEmpty then throw .notFound
  let place ←
    match ← t.locate p with
    | some place => pure place
    | none => t.walk (t.startOf p) (Path.segments p)
  match t.node? place with
  | none => throw .notFound
  | some .folder => return .folder
  | some (.file text) => if meansFolder p then throw .notDirectory else return .file text

/-- The text of the file at a path. -/
def read (t : Tree) (p : Path) : Except Fault String := do
  match ← t.nodeAt p with
  | .file text => return text
  | .folder => throw .isDirectory

/-- Whether the path leads to a file. -/
def isFile (t : Tree) (p : Path) : Bool :=
  match t.nodeAt p with
  | .ok (.file _) => true
  | _ => false

/-- Makes the folder that the segments lead to; the folder above it must exist. The segments are
given with the last one first. -/
def makeFolder (t : Tree) (start : Place) : List String → Except Fault Tree
  | [] => .error .exists
  | last :: above => do
    let folder ← t.walk start above.reverse
    if last = ".." then throw .exists
    checkName last
    match t.node? (folder ++ [last]) with
    | some _ => throw .exists
    | none => return t.put (folder ++ [last]) .folder

/-- Whether the segments, the last one first, lead to a folder. -/
def isFolder (t : Tree) (start : Place) (segments : List String) : Bool :=
  match t.walk start segments.reverse with
  | .ok _ => true
  | .error _ => false

/-- Makes the folder that the segments lead to, and those above it that are missing. The segments
are given with the last one first. -/
def makeFoldersBack (t : Tree) (start : Place) : List String → Except Fault Tree
  | [] => .ok t
  | last :: above =>
    match t.makeFolder start (last :: above) with
    | .ok t => .ok t
    | .error .notFound => do
      let t ← t.makeFoldersBack start above
      match t.makeFolder start (last :: above) with
      | .ok t => .ok t
      | .error fault => if t.isFolder start (last :: above) then .ok t else .error fault
    | .error fault => if t.isFolder start (last :: above) then .ok t else .error fault

/-- Makes a folder and those above it that are missing. -/
def makeFolders (t : Tree) (p : Path) : Except Fault Tree :=
  t.makeFoldersBack (t.startOf p) (Path.segments p).reverse

/-- Every file below a place, with the names that lead to it from there. -/
def filesBelow (t : Tree) (start : Place) : List (Place × String) :=
  t.nodes.filterMap fun n =>
    match n.2 with
    | .folder => none
    | .file text => if start.isPrefixOf n.1 then some (n.1.drop start.length, text) else none

example :
    (((makeFolders {} "a/b").bind fun t => (t.write "a/b/x" "1").bind (·.append "a/./b/x" "2")).map
      (filesBelow · ["a"])).toOption = some [(["b", "x"], "12")] := by
  decide +kernel

end Tree

end BuildAhead.Files
