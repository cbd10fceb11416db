import BuildAhead.Text.Pieces
import BuildAhead.Text.Step

set_option autoImplicit false

/-!
# Settings: key paths

Where a value lies in a tree of settings: a name, followed by further names behind dots and by
positions between brackets. A negative position counts from the end.
-/

namespace BuildAhead

/-- One step of a path below its first name. -/
inductive KeyStep where
  | name (name : String)
  | position (index : Int)
  deriving DecidableEq, Repr, Inhabited

/-- A path: a name, and the steps below it. -/
structure KeyPath where
  first : String
  steps : List KeyStep := []
  deriving DecidableEq, Repr, Inhabited

namespace KeyPath

open Text (Step isDigit natOf)

/-- A character of a name in a path. -/
def isNameChar (c : Char) : Bool :=
  ('a' ≤ c && c ≤ 'z') || ('A' ≤ c && c ≤ 'Z') || ('0' ≤ c && c ≤ '9') ||
    c == ' ' || c == '_' || c == '-'

/-- Reads a name, which is not empty. -/
def readName : Step String := fun cs =>
  let name := cs.takeWhile isNameChar
  if name.isEmpty then none else some (String.ofList name, cs.dropWhile isNameChar)

/-- A blank around a position. -/
def isPositionBlank (c : Char) : Bool := c == ' ' || c == '\t'

/-- Reads a position and its closing bracket. -/
def readPosition : Step Int := fun cs => do
  let cs := cs.dropWhile isPositionBlank
  let (negative, cs) : Bool × List Char :=
    match cs with
    | '-' :: rest => (true, rest)
    | cs => (false, cs)
  let digits := cs.takeWhile isDigit
  let n : Int := natOf digits
  if digits.isEmpty || 9223372036854775807 < n then none
  else
    match (cs.dropWhile isDigit).dropWhile isPositionBlank with
    | ']' :: rest => some (if negative then -n else n, rest)
    | _ => none

/-- Reads the steps up to the end. Each step consumes a character, so their number bounds the
steps. -/
def readSteps : Nat → List Char → Option (List KeyStep)
  | _, [] => some []
  | 0, _ => none
  | fuel + 1, c :: cs =>
    if c = '.' then do
      let (name, rest) ← readName cs
      some (.name name :: (← readSteps fuel rest))
    else if c = '[' then do
      let (index, rest) ← readPosition cs
      some (.position index :: (← readSteps fuel rest))
    else none

/-- The path that a text writes. -/
def parse? (text : String) : Option KeyPath := do
  let (first, rest) ← readName text.toList
  some ⟨first, ← readSteps rest.length rest⟩

example : parse? "a.b-c[ -1 ]" = some ⟨"a", [.name "b-c", .position (-1)]⟩ := by decide +kernel
example : parse? "a..b" = none ∧ parse? "" = none ∧ parse? "a." = none := by decide +kernel

end KeyPath

end BuildAhead
