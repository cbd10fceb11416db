import BuildAhead.Yaml.Cursor

set_option autoImplicit false

/-!
# Yaml: scalars

The written forms of a text in a YAML document: plain, between quotes, and as a block of lines. In a
plain or quoted text a line end becomes a blank, and of several line ends in a row all but the first
are kept; blanks around a line end are dropped.
-/

namespace BuildAhead.Yaml

open Text (natOfBase? charOf?)

/-- `n` line feeds. -/
def lineFeeds (n : Nat) : List Char := List.replicate n '\n'

/-- What stands for a stretch of blanks with this number of line ends. -/
def folded (blanks : List Char) (breaks : Nat) : List Char :=
  match breaks with
  | 0 => blanks
  | 1 => [' ']
  | n + 1 => lineFeeds n

/-- The blanks and line ends at a cursor: the blanks before the first line end, the number of line
ends, and the cursor behind. `skipTab` moves over a tab that stands behind a line end and before the
column `indent`, where it may. -/
def readGap (indent : Int) (skipTab : Cursor → Option Cursor) :
    Nat → List Char → Nat → Cursor → Option (List Char × Nat × Cursor)
  | 0, _, _, _ => none
  | fuel + 1, blanks, breaks, c =>
    match c.rest with
    | [] => some (blanks.reverse, breaks, c)
    | ch :: _ =>
      if ch = '\n' then readGap indent skipTab fuel [] (breaks + 1) c.next
      else if isBlank ch then
        if breaks = 0 then readGap indent skipTab fuel (ch :: blanks) 0 c.next
        else if ch = '\t' ∧ (c.column : Int) < indent then do
          readGap indent skipTab fuel [] breaks (← skipTab c)
        else readGap indent skipTab fuel [] breaks c.next
      else some (blanks.reverse, breaks, c)

/-! ## Plain texts -/

/-- Where a text stands: how deep inside brackets, and in which column its block begins. -/
structure Surroundings where
  inFlow : Bool
  indent : Int
  deriving Repr, Inhabited

/-- The characters up to a blank, a line end or a mark that ends a plain text. -/
def plainWord (inFlow : Bool) : List Char → List Char
  | [] => []
  | c :: rest =>
    if isBlank c || c == '\n' then []
    else if c == ':' &&
        (Cursor.beginsBlank rest || (inFlow && (rest.head?.map isFlowMark).getD false)) then []
    else if inFlow && isFlowMark c then []
    else c :: plainWord inFlow rest

/-- Reads a plain text; answers with it whether it ended behind a line end. `text` holds what was
read, and `gap` what stands between it and the next word. -/
def readPlainFrom (s : Surroundings) :
    Nat → List Char → List Char → Nat → Cursor → Option (List Char × Bool × Cursor)
  | 0, _, _, _, _ => none
  | fuel + 1, text, gap, breaks, c =>
    if c.isAtDocumentMark || c.isAt '#' then some (text, breaks != 0, c)
    else if s.inFlow && c.isAt '-' && ((c.rest.drop 1).head?.map isFlowMark).getD false then none
    else
      let word := plainWord s.inFlow c.rest
      let behind := c.skip word.length
      let text := if word.isEmpty then text else text ++ gap ++ word
      let breaks := if word.isEmpty then breaks else 0
      match behind.rest with
      | [] => some (text, breaks != 0, behind)
      | ch :: _ =>
        if isBlank ch || ch == '\n' then do
          let (blanks, breaks, behind) ←
            readGap (s.indent + 1) Cursor.atLineEnd? (behind.rest.length + 1) [] 0 behind
          if !s.inFlow && (behind.column : Int) < s.indent + 1 then
            some (text, breaks != 0, behind)
          else readPlainFrom s fuel text (folded blanks breaks) breaks behind
        else some (text, breaks != 0, behind)

/-- Reads a plain text; answers with it whether it ended behind a line end. -/
def readPlain (s : Surroundings) (c : Cursor) : Option (String × Bool × Cursor) :=
  (readPlainFrom s (c.rest.length + 1) [] [] 0 c).map fun (text, ended, c) =>
    (String.ofList text, ended, c)

/-! ## Texts between quotes -/

/-- The character of an escape of one letter. -/
def escaped? : Char → Option Char
  | '0' => some '\x00'
  | 'a' => some '\x07'
  | 'b' => some '\x08'
  | 't' | '\t' => some '\t'
  | 'n' => some '\n'
  | 'v' => some '\x0B'
  | 'f' => some '\x0C'
  | 'r' => some '\r'
  | 'e' => some '\x1B'
  | ' ' => some ' '
  | '"' => some '"'
  | '/' => some '/'
  | '\\' => some '\\'
  | 'N' => some '\u0085'
  | '_' => some '\u00A0'
  | 'L' => some '\u2028'
  | 'P' => some '\u2029'
  | _ => none

/-- The number of digits behind the letter of an escape for a code point. -/
def codeLength : Char → Nat
  | 'x' => 2
  | 'u' => 4
  | 'U' => 8
  | _ => 0

/-- Reads an escape behind its backslash. -/
def readEscape (c : Cursor) : Option (Char × Cursor) := do
  let letter ← c.head?
  let length := codeLength letter
  if length = 0 then some (← escaped? letter, c.skip 1)
  else
    let digits := (c.rest.drop 1).take length
    if digits.length < length then none
    else some (← charOf? (← natOfBase? 16 digits), c.skip (1 + length))

/-- Reads characters up to a blank, a line end or the closing quote. The answer says whether it
stopped behind an escaped line end. -/
def readQuotedWord (quote : Char) :
    Nat → List Char → Cursor → Option (List Char × Bool × Cursor)
  | 0, _, _ => none
  | fuel + 1, word, c =>
    match c.rest with
    | [] => some (word.reverse, false, c)
    | ch :: rest =>
      if isBlank ch || ch == '\n' then some (word.reverse, false, c)
      else if ch = quote then
        if quote = '\'' ∧ rest.head? = some '\'' then
          readQuotedWord quote fuel ('\'' :: word) (c.skip 2)
        else some (word.reverse, false, c)
      else if ch = '\\' ∧ quote = '"' then
        if rest.head? = some '\n' then some (word.reverse, true, (c.skip 1).next)
        else do
          let (e, c) ← readEscape (c.skip 1)
          readQuotedWord quote fuel (e :: word) c
      else readQuotedWord quote fuel (ch :: word) (c.skip 1)

/-- Reads a text behind its opening quote; `text` holds what was read. Its lines stand in the column
`indent` or behind it. -/
def readQuotedFrom (quote : Char) (indent : Int) : Nat → List Char → Cursor → Option (List Char × Cursor)
  | 0, _, _ => none
  | fuel + 1, text, c =>
    if c.isAtDocumentMark || c.rest.isEmpty || decide ((c.column : Int) < indent) then none
    else do
      let (word, joined, c) ← readQuotedWord quote (c.rest.length + 1) [] c
      let text := text ++ word
      if c.isAt quote then some (text, c.skip 1)
      else
        let (blanks, breaks, c) ←
          readGap indent (fun _ => none) (c.rest.length + 1) [] (if joined then 1 else 0) c
        let gap := if joined then lineFeeds (breaks - 1) else folded blanks breaks
        readQuotedFrom quote indent fuel (text ++ gap) c

/-- Reads a text between quotes inside a block that begins in the column `indent`. -/
def readQuoted (quote : Char) (indent : Int) (c : Cursor) : Option (String × Cursor) :=
  (readQuotedFrom quote indent (c.rest.length + 1) [] (c.skip 1)).map fun (text, c) =>
    (String.ofList text, c)

/-! ## Blocks of lines -/

/-- What becomes of the line ends at the end of a block. -/
inductive Chomping where
  | strip
  | clip
  | keep
  deriving DecidableEq, Repr, Inhabited

/-- Reads the sign that says what becomes of the last line ends. -/
def readChomping (c : Cursor) : Option Chomping × Cursor :=
  if c.isAt '+' then (some .keep, c.skip 1)
  else if c.isAt '-' then (some .strip, c.skip 1)
  else (none, c)

/-- Reads the digit that gives the indentation; a zero is refused. -/
def readIncrement (c : Cursor) : Option (Nat × Cursor) :=
  match c.head? with
  | some d =>
    if d = '0' then none
    else if '1' ≤ d ∧ d ≤ '9' then some (d.toNat - 48, c.skip 1)
    else some (0, c)
  | none => some (0, c)

/-- Reads the two marks behind the letter of a block, in either order. -/
def readBlockMarks (c : Cursor) : Option (Chomping × Nat × Cursor) :=
  match readChomping c with
  | (some chomping, c) => (readIncrement c).map fun (n, c) => (chomping, n, c)
  | (none, c) => do
    let (n, c) ← readIncrement c
    if n = 0 then some (.clip, 0, c)
    else
      let (chomping, c) := readChomping c
      some (chomping.getD .clip, n, c)

/-- Skips empty lines and the indentation behind them. Of an indentation that is not known yet, all
blanks are skipped; the deepest one that is met is answered, and the number of empty lines. -/
def readEmptyLines (indent : Option Nat) : Nat → Nat → Nat → Cursor → Option (Nat × Nat × Cursor)
  | 0, _, _, _ => none
  | fuel + 1, deepest, breaks, c =>
    let blanks := (c.rest.takeWhile (· == ' ')).length
    let c := c.skip ((indent.map fun n => min blanks (n - c.column)).getD blanks)
    let deepest := max deepest c.column
    if c.isAt '\n' then readEmptyLines indent fuel deepest (breaks + 1) c.next
    else some (deepest, breaks, c)

/-- Skips empty lines and settles the indentation of a block inside a block that begins in the column
`parent`; `increment` is the indentation that its header gives, if it does. -/
def settleIndent (parent : Int) (increment : Nat) (c : Cursor) : Option (Nat × Nat × Cursor) := do
  let given := if increment = 0 then none else some ((max parent 0).toNat + increment)
  let (deepest, breaks, c) ← readEmptyLines given (c.rest.length + 1) 0 0 c
  some (given.getD (max deepest (parent + 1).toNat), breaks, c)

/-- Reads the lines of a block; `text` holds what was read, `ended` whether a line end stands behind
it, and `breaks` the number of empty lines behind that. A line that begins with a blank, and the
line behind one, is not folded. -/
def readBlockLines (isLiteral : Bool) (indent : Nat) :
    Nat → List Char → Bool → Nat → Bool → Cursor → Option (List Char × Bool × Nat × Cursor)
  | 0, _, _, _, _, _ => none
  | fuel + 1, text, ended, breaks, indented, c =>
    if c.column ≠ indent ∨ c.rest.isEmpty then some (text, ended, breaks, c)
    else
      let startsBlank := (c.head?.map isBlank).getD false
      let folds := !isLiteral && ended && !indented && !startsBlank
      let joint :=
        if folds then (if breaks = 0 then [' '] else []) else (if ended then ['\n'] else [])
      let line := c.rest.takeWhile (· != '\n')
      let text := text ++ joint ++ lineFeeds breaks ++ line
      let c := c.skipLine
      if c.rest.isEmpty then some (text, false, 0, c)
      else do
        let (_, breaks, c) ← readEmptyLines (some indent) (c.rest.length + 1) 0 0 c.next
        readBlockLines isLiteral indent fuel text true breaks startsBlank c

/-- The text of a block without lines, of which `ended` says whether its header has a line end. -/
def emptyBlock (chomping : Chomping) (ended : Bool) (breaks : Nat) : List Char :=
  if chomping = .strip ∨ !ended then []
  else if chomping = .keep ∧ 0 < breaks then lineFeeds breaks
  else ['\n']

/-- Reads a block from its letter on. A last line without a line end counts as one that has it. -/
def readBlock (isLiteral : Bool) (parent : Int) (c : Cursor) : Option (String × Cursor) := do
  let (chomping, increment, c) ← readBlockMarks (c.skip 1)
  let header ← c.atLineEnd?
  let c := header.next
  if c.isAt '\t' then none
  let (indent, breaks, c) ← settleIndent parent increment c
  if c.rest.isEmpty then
    some (String.ofList (emptyBlock chomping (!header.rest.isEmpty) breaks), c)
  else if c.column < indent ∧ parent < (c.column : Int) then none
  else
    let (text, ended, breaks, c) ←
      readBlockLines isLiteral indent (c.rest.length + 1) [] false breaks false c
    let text := if chomping ≠ .strip ∧ ended then text ++ ['\n'] else text
    let text :=
      if chomping ≠ .strip ∧ c.rest.isEmpty ∧ max indent 1 ≤ c.column then text ++ ['\n'] else text
    let text := if chomping = .keep then text ++ lineFeeds breaks else text
    some (String.ofList text, c)

example : (readPlain ⟨false, -1⟩ ⟨"a b\n c\n\n d: 1".toList, 0, 0, 0⟩).map (·.1) =
    some "a b c\nd" := by decide +kernel
example : (readQuoted '"' 0 ⟨"\"a\\\n  b \\u0041\n\n c\"".toList, 0, 0, 0⟩).map (·.1) =
    some "ab A\nc" := by decide +kernel
example : (readBlock false 0 ⟨">\n  a\n  b\n\n  c\n".toList, 0, 0, 0⟩).map (·.1) =
    some "a b\nc\n" := by decide +kernel

end BuildAhead.Yaml
