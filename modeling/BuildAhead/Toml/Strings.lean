import BuildAhead.Text.Step

set_option autoImplicit false

/-!
# Toml: reading strings

The four kinds of strings of the TOML format: between double quotes with escapes, between single
quotes without, and both with three quotes over several lines. A line feed right behind three opening
quotes is not part of the text, and a backslash at the end of a line swallows the blanks and line
feeds behind it.
-/

namespace BuildAhead.Toml

open Text (Step takeExactly natOfBase? charOf?)

/-- A blank inside a line. -/
def isBlank (c : Char) : Bool := c == ' ' || c == '\t'

/-- A character that may stand in a line: everything but the control characters other than the
tab. -/
def isLineChar (c : Char) : Bool := c == '\t' || (0x20 ≤ c.toNat && c.toNat != 0x7F)

/-- The characters behind a line feed, or behind a carriage return and a line feed. -/
def behindNewline : List Char → Option (List Char)
  | '\n' :: rest => some rest
  | '\r' :: '\n' :: rest => some rest
  | _ => none

/-- The characters behind a line feed if one is there. -/
def skipNewline (cs : List Char) : List Char := (behindNewline cs).getD cs

/-- Reads the digits of an escape for a code point. -/
def readCodePoint (count : Nat) : Step Char := fun cs => do
  let (digits, rest) ← takeExactly count cs
  let c ← charOf? (← natOfBase? 16 digits)
  some (c, rest)

/-- Reads an escape behind its backslash. -/
def readEscape : Step Char
  | 'b' :: rest => some ('\x08', rest)
  | 't' :: rest => some ('\t', rest)
  | 'n' :: rest => some ('\n', rest)
  | 'f' :: rest => some ('\x0C', rest)
  | 'r' :: rest => some ('\r', rest)
  | '"' :: rest => some ('"', rest)
  | '\\' :: rest => some ('\\', rest)
  | 'u' :: rest => readCodePoint 4 rest
  | 'U' :: rest => readCodePoint 8 rest
  | _ => none

/-- Reads a string on one line behind its opening quote; `read` holds the characters so far, the last
one first. Each step consumes a character, so their number bounds the steps. -/
def readLine (quote : Char) (escapes : Bool) : Nat → List Char → Step String
  | 0, _, _ => none
  | _ + 1, _, [] => none
  | fuel + 1, read, c :: cs =>
    if c = quote then some (String.ofList read.reverse, cs)
    else if c = '\\' ∧ escapes then do
      let (c, cs) ← readEscape cs
      readLine quote escapes fuel (c :: read) cs
    else if isLineChar c then readLine quote escapes fuel (c :: read) cs
    else none

/-- The characters behind blanks and line feeds. -/
def skipBlankLines : Nat → List Char → List Char
  | 0, cs => cs
  | fuel + 1, cs =>
    let cs := cs.dropWhile isBlank
    match behindNewline cs with
    | some rest => skipBlankLines fuel rest
    | none => cs

/-- What follows a backslash at the end of a line. -/
def behindLineEnd (cs : List Char) : Option (List Char) :=
  match behindNewline (cs.dropWhile isBlank) with
  | some rest => some (skipBlankLines rest.length rest)
  | none => none

/-- Reads a string over several lines behind its three opening quotes. Of a run of quotes the last
three close the string; at most two can stand before them. -/
def readLines (quote : Char) (escapes : Bool) : Nat → List Char → Step String
  | 0, _, _ => none
  | _ + 1, _, [] => none
  | fuel + 1, read, c :: cs =>
    if c = quote then
      let run := 1 + (cs.takeWhile (· == quote)).length
      if run < 3 then readLines quote escapes fuel (c :: read) cs
      else
        let inside := min (run - 3) 2
        some (String.ofList (List.replicate inside quote ++ read).reverse, cs.drop (inside + 2))
    else if c = '\\' ∧ escapes then
      match behindLineEnd cs with
      | some rest => readLines quote escapes fuel read rest
      | none => do
        let (c, cs) ← readEscape cs
        readLines quote escapes fuel (c :: read) cs
    else
      match behindNewline (c :: cs) with
      | some rest => readLines quote escapes fuel ('\n' :: read) rest
      | none => if isLineChar c then readLines quote escapes fuel (c :: read) cs else none

/-- Reads a string on one line. -/
def readLineString : Step String
  | '"' :: rest => readLine '"' true (rest.length + 1) [] rest
  | '\'' :: rest => readLine '\'' false (rest.length + 1) [] rest
  | _ => none

/-- Reads a string of any kind. -/
def readString : Step String
  | '"' :: '"' :: '"' :: rest =>
    readLines '"' true (rest.length + 1) [] (skipNewline rest)
  | '\'' :: '\'' :: '\'' :: rest =>
    readLines '\'' false (rest.length + 1) [] (skipNewline rest)
  | cs => readLineString cs

example : readString "\"a\\tb\" #".toList = some ("a\tb", [' ', '#']) := by decide +kernel
example : readString "'''\na\r\n''b'''''".toList = some ("a\n''b''", []) := by decide +kernel
example : readString "\"\"\"a \\\n  \n b\"\"\"".toList = some ("a b", []) := by decide +kernel

end BuildAhead.Toml
