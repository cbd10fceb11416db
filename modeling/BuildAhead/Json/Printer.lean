import BuildAhead.Json.Basic
import BuildAhead.Number.Notation
import BuildAhead.Text.Quoted

set_option autoImplicit false

/-!
# Json: writing

The two written forms of a JSON value: `Json.compact`, without any blank, and `Json.pretty`, with
one item or member a line and two blanks for each level, where an empty array and an empty object
are closed at once. Members are written in the order in which they stand.
-/

namespace BuildAhead.Json

/-- One character of a string. -/
def escapedChar (c : Char) : List Char :=
  match c with
  | '"' => ['\\', '"']
  | '\\' => ['\\', '\\']
  | '\x08' => ['\\', 'b']
  | '\t' => ['\\', 't']
  | '\n' => ['\\', 'n']
  | '\x0C' => ['\\', 'f']
  | '\r' => ['\\', 'r']
  | c =>
    if c.toNat < 0x20 then
      ['\\', 'u', '0', '0', Text.hexDigit (c.toNat / 16), Text.hexDigit (c.toNat % 16)]
    else [c]

/-- A string between its quotes. -/
def quotedText (s : String) : List Char := '"' :: s.toList.flatMap escapedChar ++ ['"']

/-- A double; what is infinite or undefined has no written form and becomes `null`. -/
def doubleText (x : Binary64) : List Char :=
  if x.isFinite then x.scientific.toList else ['n', 'u', 'l', 'l']

/-- The text of a value that holds no others. -/
def leafText : Json → List Char
  | .null => ['n', 'u', 'l', 'l']
  | .bool true => ['t', 'r', 'u', 'e']
  | .bool false => ['f', 'a', 'l', 's', 'e']
  | .int n => (Decimal.ofInt n).toList
  | .double x => doubleText x
  | .text s => quotedText s
  | .array _ => ['[', ']']
  | .object _ => ['\x7b', '\x7d']

mutual

/-- The characters of the compact form. -/
def compactChars : Json → List Char
  | .array items => '[' :: compactItems items ++ [']']
  | .object members => '\x7b' :: compactMembers members ++ ['\x7d']
  | .null => leafText .null
  | .bool b => leafText (.bool b)
  | .int n => leafText (.int n)
  | .double x => leafText (.double x)
  | .text s => leafText (.text s)

/-- The items of an array with commas between them. -/
def compactItems : List Json → List Char
  | [] => []
  | [v] => compactChars v
  | v :: rest => compactChars v ++ ',' :: compactItems rest

/-- The members of an object with commas between them. -/
def compactMembers : List (String × Json) → List Char
  | [] => []
  | [(k, v)] => quotedText k ++ ':' :: compactChars v
  | (k, v) :: rest => quotedText k ++ ':' :: compactChars v ++ ',' :: compactMembers rest

end

/-- A new line at a level. -/
def newLine (level : Nat) : List Char := '\n' :: List.replicate (2 * level) ' '

mutual

/-- The characters of the pretty form of a value that begins at a level. -/
def prettyChars (level : Nat) : Json → List Char
  | .array [] => leafText (.array [])
  | .array (v :: rest) =>
    '[' :: newLine (level + 1) ++ prettyChars (level + 1) v ++ prettyItems (level + 1) rest ++
      newLine level ++ [']']
  | .object [] => leafText (.object [])
  | .object ((k, v) :: rest) =>
    '\x7b' :: newLine (level + 1) ++ quotedText k ++ ':' :: ' ' :: prettyChars (level + 1) v ++
      prettyMembers (level + 1) rest ++ newLine level ++ ['\x7d']
  | .null => leafText .null
  | .bool b => leafText (.bool b)
  | .int n => leafText (.int n)
  | .double x => leafText (.double x)
  | .text s => leafText (.text s)

/-- The further items of an array. -/
def prettyItems (level : Nat) : List Json → List Char
  | [] => []
  | v :: rest => ',' :: newLine level ++ prettyChars level v ++ prettyItems level rest

/-- The further members of an object. -/
def prettyMembers (level : Nat) : List (String × Json) → List Char
  | [] => []
  | (k, v) :: rest =>
    ',' :: newLine level ++ quotedText k ++ ':' :: ' ' :: prettyChars level v ++
      prettyMembers level rest

end

/-- The value on one line, without blanks. -/
def compact (v : Json) : String := String.ofList (compactChars v)

/-- The value with one item or member a line, indented by two blanks a level. -/
def pretty (v : Json) : String := String.ofList (prettyChars 0 v)

end BuildAhead.Json
