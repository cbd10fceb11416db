import BuildAhead.Text.Blank
import BuildAhead.Text.Step

set_option autoImplicit false

/-!
# Ini: documents

The reader of INI documents: keys with values behind `=` or `:`, in sections. A comment is a whole
line that begins with `;` or `#` in its first column. A key reaches up to the mark behind it, over
line ends too. A value reaches to the end of its line; a part between quotes at its beginning may
reach further. A backslash begins an escape everywhere.
-/

namespace BuildAhead.Ini

open Text (Step takeExactly natOfBase? charOf?)

/-- The keys and values of one section; those before the first header belong to no section. -/
structure Section where
  name : Option String
  entries : List (String × String) := []
  deriving DecidableEq, Repr, Inhabited

/-- A blank between the parts of a document. -/
def isSpace (c : Char) : Bool := c == ' ' || c == '\t' || c == '\n' || c == '\r'

/-- The characters behind blanks, with whether the next one stands in the first column; `atStart`
says this of the first character. -/
def skipSpaces (atStart : Bool) : List Char → Bool × List Char
  | [] => (atStart, [])
  | c :: cs => if isSpace c then skipSpaces (c == '\n') cs else (atStart, c :: cs)

/-- Reads an escape behind its backslash; an escaped line end stands for nothing. -/
def readEscape : Step (List Char)
  | [] => none
  | '0' :: rest => some (['\x00'], rest)
  | 'a' :: rest => some (['\x07'], rest)
  | 'b' :: rest => some (['\x08'], rest)
  | 't' :: rest => some (['\t'], rest)
  | 'r' :: rest => some (['\r'], rest)
  | 'n' :: rest => some (['\n'], rest)
  | '\n' :: rest => some ([], rest)
  | 'x' :: rest => do
    let (digits, rest) ← takeExactly 4 rest
    let c ← charOf? (← natOfBase? 16 digits)
    some ([c], rest)
  | c :: rest => some ([c], rest)

/-- Reads up to a character at which the text ends; `read` holds the characters so far, the last one
first. Answers what is left from that character on. -/
def readUntil (isEnd : Char → Bool) (endsAtEnd : Bool) : Nat → List Char → Step (List Char)
  | 0, _, _ => none
  | _ + 1, read, [] => if endsAtEnd then some (read.reverse, []) else none
  | fuel + 1, read, c :: cs =>
    if isEnd c then some (read.reverse, c :: cs)
    else if c = '\\' then do
      let (escaped, cs) ← readEscape cs
      readUntil isEnd endsAtEnd fuel (escaped.reverse ++ read) cs
    else readUntil isEnd endsAtEnd fuel (c :: read) cs

/-- Reads up to one of the characters, which must come. -/
def readTo (isEnd : Char → Bool) : Step (List Char) := fun cs =>
  readUntil isEnd false (cs.length + 1) [] cs

/-- Reads the rest of a line, without the blanks around it. -/
def readRest : Step (List Char) := fun cs =>
  (readUntil (fun c => c == '\n' || c == '\r') true (cs.length + 1) [] cs).map
    fun (text, rest) => (Text.trimChars text, rest)

/-- Reads a value that begins behind a quote. -/
def readQuoted (quote : Char) : Step (List Char) := fun cs => do
  let (inside, rest) ← readTo (· == quote) cs
  let (behind, rest) ← readRest (rest.drop 1)
  some (inside ++ behind, rest)

/-- Reads a value. -/
def readValue : Step String := fun cs => do
  let (text, rest) ←
    match cs.dropWhile fun c => c == ' ' || c == '\t' with
    | '"' :: rest => readQuoted '"' rest
    | '\'' :: rest => readQuoted '\'' rest
    | cs => readRest cs
  some (String.ofList text, rest)

/-- The text of a name without the blanks around it. -/
def nameOf (cs : List Char) : String := String.ofList (Text.trimChars cs)

/-- What has been read: the sections, the last one first, and a key that waits for its value. -/
structure Draft where
  sections : List Section := [⟨none, []⟩]
  key : String := ""
  deriving Inhabited

/-- The draft with a value for the waiting key. -/
def Draft.add (d : Draft) (value : String) : Option Draft :=
  if d.key.isEmpty then none
  else
    match d.sections with
    | [] => none
    | s :: rest => some ⟨⟨s.name, s.entries ++ [(d.key, value)]⟩ :: rest, ""⟩

/-- Reads the parts of a document; `atStart` says whether the first character stands in the first
column. Each part consumes a character, so their number bounds the number of parts. -/
def readParts : Nat → Draft → Bool → List Char → Option Draft
  | 0, _, _, _ => none
  | fuel + 1, d, atStart, cs =>
    match skipSpaces atStart cs with
    | (_, []) => some d
    | (atStart, c :: rest) =>
      if c = ';' ∨ c = '#' then
        if atStart then readParts fuel d true ((rest.dropWhile (· != '\n')).drop 1) else none
      else if c = '[' then do
        let (name, rest) ← readTo (· == ']') rest
        readParts fuel { d with sections := ⟨some (nameOf name), []⟩ :: d.sections } false
          (rest.drop 1)
      else if c = '=' ∨ c = ':' then do
        let (value, rest) ← readValue rest
        readParts fuel (← d.add value) false rest
      else do
        let (key, rest) ← readTo (fun c => c == '=' || c == ':') (c :: rest)
        readParts fuel { d with key := nameOf key } false rest

/-- The sections of an INI document, in order. -/
def read? (document : String) : Option (List Section) :=
  let cs := document.toList
  (readParts (cs.length + 1) {} true cs).map fun d => d.sections.reverse

example :
    read? "a = 1\n; c\n[s]\nb: 'x' y\n" =
      some [⟨none, [("a", "1")]⟩, ⟨some "s", [("b", "xy")]⟩] := by
  decide +kernel
example : read? "a\n" = none ∧ read? "= 1" = none ∧ read? " # c" = none := by decide +kernel

end BuildAhead.Ini
