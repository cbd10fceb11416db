import BuildAhead.Yaml.Node
import BuildAhead.Yaml.Token

set_option autoImplicit false

/-!
# Yaml: documents

The value that the tokens of a YAML document write. An anchor names a value, and an alias stands for
the value that its name had last; inside the value that it names it stands for nothing. A text with
several documents is refused.
-/

namespace BuildAhead.Yaml

/-- The tokens that are left, and the anchors met so far. -/
structure Reading where
  tokens : List Token
  /-- the number of the last anchor of each name, the latest first -/
  anchors : List (String × Nat) := []
  /-- the values of the anchors that are complete -/
  values : List (Nat × Node) := []
  deriving Inhabited

/-- A reading step, which may fail. -/
abbrev Read (α : Type) : Type := StateT Reading Option α

namespace Read

/-- The next token. -/
def peek : Read (Option Token) := return (← get).tokens.head?

/-- Moves behind the next token. -/
def skip : Read Unit := modify fun s => { s with tokens := s.tokens.drop 1 }

/-- Moves behind the next token if it is this one, and answers whether it was. -/
def skipIf (t : Token) : Read Bool := do
  if (← peek) = some t then
    skip
    return true
  else return false

/-- Registers an anchor and answers its number. -/
def register (name : String) : Read Nat := do
  let s ← get
  let number := s.anchors.length
  set { s with anchors := (name, number) :: s.anchors }
  return number

/-- The value that an alias stands for. -/
def aliased (name : String) : Read Node := do
  let s ← get
  match s.anchors.find? (·.1 == name) with
  | none => failure
  | some (_, number) =>
    return ((s.values.find? (·.1 == number)).map (·.2)).getD .null

/-- The anchor and the tag before a value, in either order. -/
def properties : Read (Option Nat × Option (String × String)) := do
  match ← peek with
  | some (.anchor name) =>
    skip
    let number ← register name
    match ← peek with
    | some (.tag handle suffix) =>
      skip
      return (some number, some (handle, suffix))
    | _ => return (some number, none)
  | some (.tag handle suffix) =>
    skip
    match ← peek with
    | some (.anchor name) =>
      skip
      return (some (← register name), some (handle, suffix))
    | _ => return (none, some (handle, suffix))
  | _ => return (none, none)

/-- What a scalar stands for. -/
def scalarNode (isPlain : Bool) (tag : Option (String × String)) (text : String) : Node :=
  if !isPlain then .text text
  else
    match tag with
    | none => .ofPlain text
    | some (handle, suffix) => if handle = "!!" then .ofTagged suffix text else .text text

/-- Whether no value stands before this token. -/
def isMissing (ends : List Token) (next : Option Token) : Bool :=
  match next with
  | some t => ends.contains t
  | none => false

mutual

/-- Reads a value. `inBlock` says whether a block may begin here, and `bare` whether items may begin
without a block of their own. -/
def node (inBlock bare : Bool) : Nat → Read Node
  | 0 => failure
  | fuel + 1 => do
    match ← peek with
    | some (.alias name) =>
      skip
      aliased name
    | _ =>
      let (number, tag) ← properties
      let value ← content inBlock bare tag (number.isSome || tag.isSome) fuel
      match number with
      | some number => modify fun s => { s with values := (number, value) :: s.values }
      | none => pure ()
      return value

/-- Reads a value behind its anchor and tag. -/
def content (inBlock bare : Bool) (tag : Option (String × String)) (mayBeEmpty : Bool) :
    Nat → Read Node
  | 0 => failure
  | fuel + 1 => do
    match ← peek with
    | some .item => if bare then return .list (← bareItems [] fuel) else missing tag mayBeEmpty
    | some (.scalar isPlain text) =>
      skip
      return scalarNode isPlain tag text
    | some .flowSequence =>
      skip
      return .list (← flowItems true [] fuel)
    | some .flowMapping =>
      skip
      return .map (← flowEntries true [] fuel)
    | some .blockSequence =>
      if inBlock then
        skip
        return .list (← blockItems [] fuel)
      else missing tag mayBeEmpty
    | some .blockMapping =>
      if inBlock then
        skip
        return .map (← blockEntries [] fuel)
      else missing tag mayBeEmpty
    | _ => missing tag mayBeEmpty

/-- The value where none is written, which needs an anchor or a tag. -/
def missing (tag : Option (String × String)) (mayBeEmpty : Bool) : Read Node :=
  if mayBeEmpty then return scalarNode true tag "" else failure

/-- Reads a value unless one of the tokens shows that there is none. -/
def nodeUnless (ends : List Token) (inBlock bare : Bool) : Nat → Read Node
  | 0 => failure
  | fuel + 1 => do
    if isMissing ends (← peek) then return .null else node inBlock bare fuel

/-- Reads items that have no block of their own; `read` holds those so far, the last one first. -/
def bareItems (read : List Node) : Nat → Read (List Node)
  | 0 => failure
  | fuel + 1 => do
    if ← skipIf .item then
      let v ← nodeUnless [.item, .key, .value, .blockEnd] true false fuel
      bareItems (v :: read) fuel
    else return read.reverse

/-- Reads the items of a block. -/
def blockItems (read : List Node) : Nat → Read (List Node)
  | 0 => failure
  | fuel + 1 => do
    if ← skipIf .blockEnd then return read.reverse
    else if ← skipIf .item then
      let v ← nodeUnless [.item, .blockEnd] true false fuel
      blockItems (v :: read) fuel
    else failure

/-- Reads the value behind a key of a block, if there is one. -/
def blockValue : Nat → Read Node
  | 0 => failure
  | fuel + 1 => do
    if ← skipIf .value then nodeUnless [.key, .value, .blockEnd] true true fuel
    else return .null

/-- Reads the entries of a block. -/
def blockEntries (read : List (Node × Node)) : Nat → Read (List (Node × Node))
  | 0 => failure
  | fuel + 1 => do
    if ← skipIf .blockEnd then return read.reverse
    else if ← skipIf .key then
      let k ← nodeUnless [.key, .value, .blockEnd] true true fuel
      let v ← blockValue fuel
      blockEntries ((k, v) :: read) fuel
    else if (← peek) = some .value then
      let v ← blockValue fuel
      blockEntries ((.null, v) :: read) fuel
    else failure

/-- Reads the value behind a key in braces or brackets, if there is one. -/
def flowValue (close : Token) : Nat → Read Node
  | 0 => failure
  | fuel + 1 => do
    if ← skipIf .value then nodeUnless [.separator, close] false false fuel
    else return .null

/-- Reads the entries in braces. -/
def flowEntries (isFirst : Bool) (read : List (Node × Node)) : Nat → Read (List (Node × Node))
  | 0 => failure
  | fuel + 1 => do
    if ← skipIf .flowMappingEnd then return read.reverse
    if !isFirst then
      if !(← skipIf .separator) then failure
    if ← skipIf .flowMappingEnd then return read.reverse
    else if ← skipIf .key then
      let k ← nodeUnless [.value, .separator, .flowMappingEnd] false false fuel
      let v ← flowValue .flowMappingEnd fuel
      flowEntries false ((k, v) :: read) fuel
    else if (← peek) = some .value then
      let v ← flowValue .flowMappingEnd fuel
      flowEntries false ((.null, v) :: read) fuel
    else
      let k ← node false false fuel
      flowEntries false ((k, .null) :: read) fuel

/-- Reads the items in brackets; a key with its value is an item of its own. -/
def flowItems (isFirst : Bool) (read : List Node) : Nat → Read (List Node)
  | 0 => failure
  | fuel + 1 => do
    if ← skipIf .flowSequenceEnd then return read.reverse
    if !isFirst then
      if !(← skipIf .separator) then failure
    if ← skipIf .flowSequenceEnd then return read.reverse
    else if ← skipIf .key then
      let k ← nodeUnless [.value, .separator, .flowSequenceEnd] false false fuel
      let v ← flowValue .flowSequenceEnd fuel
      flowItems false (.map [(k, v)] :: read) fuel
    else
      let v ← node false false fuel
      flowItems false (v :: read) fuel

end

/-- Moves behind tokens of one kind. -/
def skipAll (t : Token) : Nat → Read Unit
  | 0 => return ()
  | fuel + 1 => do
    if ← skipIf t then skipAll t fuel

/-- Reads the document that begins here. -/
def document (fuel : Nat) : Read Node := do
  let start ← peek
  skipAll .directive fuel
  let marked ← skipIf .documentStart
  if start = some .directive && !marked then failure
  match ← peek with
  | none => return .null
  | some .directive | some .documentStart | some .documentEnd =>
    if marked then return .null else failure
  | _ => node true false fuel

/-- Reads all documents of a text: none, or exactly one. -/
def all (fuel : Nat) : Read (Option Node) := do
  skipAll .documentEnd fuel
  if (← peek).isNone then return none
  let value ← document fuel
  skipAll .documentEnd fuel
  if (← peek).isSome then failure
  return some value

end Read

/-- The value of a YAML text; none inside when it has no document. Every step of the reader but a few
around each token consumes one, which bounds the steps. -/
def read? (text : String) : Option (Option Node) := do
  let tokens ← tokens? text
  let (value, _) ← (Read.all (4 * tokens.length + 8)).run { tokens }
  some value

end BuildAhead.Yaml
