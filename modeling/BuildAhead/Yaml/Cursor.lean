import BuildAhead.Text.Step

set_option autoImplicit false

/-!
# Yaml: cursors

A place in a YAML document. The format depends on columns and on what stands on one line, so the
readers of its parts work on a cursor, which knows its line and column. Line ends are line feeds
here; other line ends are made so before a document is read.
-/

namespace BuildAhead.Yaml

/-- The rest of a document and where it begins. -/
structure Cursor where
  rest : List Char
  index : Nat := 0
  line : Nat := 0
  column : Nat := 0
  deriving Repr, Inhabited

/-- A blank inside a line. -/
def isBlank (c : Char) : Bool := c == ' ' || c == '\t'

/-- A character that means something by itself inside brackets and braces. -/
def isFlowMark (c : Char) : Bool := c == ',' || c == '[' || c == ']' || c == '\x7b' || c == '\x7d'

namespace Cursor

/-- The cursor behind one character. -/
def next (c : Cursor) : Cursor :=
  match c.rest with
  | [] => c
  | '\n' :: rest => ⟨rest, c.index + 1, c.line + 1, 0⟩
  | _ :: rest => ⟨rest, c.index + 1, c.line, c.column + 1⟩

/-- The cursor behind so many characters of one line. -/
def skip (n : Nat) (c : Cursor) : Cursor := ⟨c.rest.drop n, c.index + n, c.line, c.column + n⟩

/-- The cursor behind the characters that satisfy a predicate, none of them a line feed. -/
def skipWhile (p : Char → Bool) (c : Cursor) : Cursor := c.skip (c.rest.takeWhile p).length

/-- The cursor at the end of the line. -/
def skipLine (c : Cursor) : Cursor := c.skipWhile (· != '\n')

/-- The next character. -/
def head? (c : Cursor) : Option Char := c.rest.head?

/-- Whether this is the next character. -/
def isAt (ch : Char) (c : Cursor) : Bool := c.head? == some ch

/-- Whether a list of characters begins with a blank, with a line end, or not at all. -/
def beginsBlank : List Char → Bool
  | [] => true
  | c :: _ => isBlank c || c == '\n'

/-- The cursor at the end of its line, if only blanks stand before that, and behind blanks a
comment. -/
def atLineEnd? (c : Cursor) : Option Cursor :=
  let behind := c.skipWhile isBlank
  if behind.isAt '#' && behind.index != c.index then some behind.skipLine
  else if behind.rest.isEmpty || behind.isAt '\n' then some behind
  else none

/-- Whether the line begins with these three characters and nothing joined to them. -/
def isAtMark (mark : String) (c : Cursor) : Bool :=
  c.column == 0 && mark.toList.isPrefixOf c.rest && beginsBlank (c.rest.drop 3)

/-- Whether a document begins or ends on this line. -/
def isAtDocumentMark (c : Cursor) : Bool := c.isAtMark "---" || c.isAtMark "..."

end Cursor

/-- A document with line feeds for all line ends, up to a character that ends it. -/
def withLineFeeds : List Char → List Char
  | [] => []
  | '\r' :: '\n' :: rest => '\n' :: withLineFeeds rest
  | '\r' :: rest => '\n' :: withLineFeeds rest
  | '\x00' :: _ => []
  | c :: rest => c :: withLineFeeds rest

end BuildAhead.Yaml
