import BuildAhead.Yaml.Scalar

set_option autoImplicit false

/-!
# Yaml: tokens

A YAML document as a list of tokens, in which the indentation has become explicit: a block begins
with a token of its own and ends with `blockEnd`. What stands before a colon turns out to be a key
only when the colon is met; the tokens that begin a mapping and its key are then put in front of it.
Such a key stands on one line and is not long.
-/

namespace BuildAhead.Yaml

/-- A token. -/
inductive Token where
  | documentStart
  | documentEnd
  | directive
  | blockSequence
  | blockMapping
  | blockEnd
  | flowSequence
  | flowSequenceEnd
  | flowMapping
  | flowMappingEnd
  /-- the dash before an item -/
  | item
  /-- the comma between brackets -/
  | separator
  | key
  | value
  | alias (name : String)
  | anchor (name : String)
  | tag (handle : String) (suffix : String)
  | scalar (isPlain : Bool) (text : String)
  deriving DecidableEq, Repr, Inhabited

/-- A place at which a key may have begun. -/
structure KeyStart where
  isPossible : Bool := false
  /-- whether something is wrong if this is no key -/
  isRequired : Bool := false
  /-- the number of tokens before it -/
  position : Nat := 0
  index : Nat := 0
  line : Nat := 0
  column : Nat := 0
  deriving Repr, Inhabited

/-- What is left when a block ends: the column of the block around it, and whether a token says so.
Behind a key or an item stands a margin, one column wide, which only says how deep the lines that
follow have to stand; no token ends it. -/
structure Outer where
  indent : Int
  isBlock : Bool
  deriving Repr, Inhabited

/-- What is known while a document is cut into tokens. -/
structure Cutting where
  cursor : Cursor
  tokens : List Token := []
  /-- the place of a possible key at each level of brackets, the innermost first; the last one is
  that outside of all brackets -/
  keyStarts : List KeyStart := [{}]
  /-- whether a key may begin here -/
  keyAllowed : Bool := true
  /-- the column of the innermost block or margin, and what is around it -/
  indent : Int := -1
  outer : List Outer := []
  /-- where a colon may follow without a blank behind it -/
  joinedAt : Nat := 0
  deriving Repr, Inhabited

/-- A step of cutting, which may fail. -/
abbrev Cut (α : Type) : Type := StateT Cutting Option α

namespace Cutting

/-- The number of brackets around the cursor. -/
def flowLevel (s : Cutting) : Nat := s.keyStarts.length - 1

/-- Whether the cursor is inside brackets. -/
def inFlow (s : Cutting) : Bool := s.flowLevel != 0

/-- With one more token at the end. -/
def push (s : Cutting) (t : Token) : Cutting := { s with tokens := s.tokens ++ [t] }

/-- With a token in front of that at a position. -/
def insert (s : Cutting) (position : Nat) (t : Token) : Cutting :=
  { s with tokens := s.tokens.take position ++ t :: s.tokens.drop position }

/-- The place of a possible key at the innermost level. -/
def keyStart (s : Cutting) : KeyStart := s.keyStarts.headD {}

/-- With another place of a possible key at the innermost level. -/
def withKeyStart (s : Cutting) (k : KeyStart) : Cutting :=
  { s with keyStarts := k :: s.keyStarts.drop 1 }

/-- Whether the innermost indentation is a margin. -/
def inMargin (s : Cutting) : Bool := (s.outer.head?.map (!·.isBlock)).getD false

/-- With the margin left, if there is one. -/
def leaveMargin (s : Cutting) : Cutting :=
  match s.outer with
  | ⟨indent, false⟩ :: outer => { s with indent, outer }
  | _ => s

/-- With a margin inside the innermost block. -/
def addMargin (s : Cutting) : Cutting :=
  if s.inFlow || s.outer.isEmpty || s.inMargin then s
  else { s with indent := s.indent + 1, outer := ⟨s.indent, false⟩ :: s.outer }

/-- With a block that begins in a column, unless one does already; its token is put at a position. A
margin that the block begins in or behind gives way to it. -/
def indentTo (s : Cutting) (column position : Nat) (t : Token) : Cutting :=
  if s.inFlow then s
  else
    let s := if s.indent ≤ (column : Int) then s.leaveMargin else s
    if s.indent < (column : Int) then
      { s.insert position t with indent := column, outer := ⟨s.indent, true⟩ :: s.outer }
    else s

/-- With the blocks and margins closed that begin behind a column. -/
def closeBlocks (column : Int) (indent : Int) (tokens : List Token) :
    List Outer → Int × List Token × List Outer
  | [] => (indent, tokens, [])
  | o :: rest =>
    if column < indent then
      closeBlocks column o.indent (if o.isBlock then tokens ++ [.blockEnd] else tokens) rest
    else (indent, tokens, o :: rest)

/-- Closes the blocks that begin behind a column; inside brackets there are none. -/
def unindentTo (s : Cutting) (column : Int) : Cutting :=
  if s.inFlow then s
  else
    let (indent, tokens, outer) := closeBlocks column s.indent s.tokens s.outer
    { s with indent, tokens, outer }

end Cutting

namespace Cut

/-- Gives up the possible key of the innermost level. -/
def dropKey : Cut Unit := do
  let s ← get
  if s.keyStart.isPossible && s.keyStart.isRequired then failure
  set (s.withKeyStart { s.keyStart with isPossible := false })

/-- Remembers that a key may begin here. -/
def saveKey : Cut Unit := do
  if (← get).keyAllowed then
    dropKey
    modify fun s =>
      s.withKeyStart
        { isPossible := true
          isRequired := s.inFlow && s.indent == (s.cursor.column : Int) && !s.inMargin
          position := s.tokens.length
          index := s.cursor.index
          line := s.cursor.line
          column := s.cursor.column }

/-- The greatest length of a key. -/
def longestKey : Nat := 1024

/-- Gives up the possible keys that are on an earlier line or too far away; inside brackets a key may
be long. -/
def dropStaleKeys : Cut Unit := do
  let s ← get
  let isStale (k : KeyStart) : Bool :=
    k.isPossible && !s.inFlow &&
      (k.line < s.cursor.line || k.index + longestKey < s.cursor.index)
  if s.keyStarts.any fun k => isStale k && k.isRequired then failure
  set { s with
    keyStarts := s.keyStarts.map fun k => if isStale k then { k with isPossible := false } else k }

/-- Says whether a key may begin at the next token. -/
def allowKey (allowed : Bool) : Cut Unit := modify fun s => { s with keyAllowed := allowed }

/-- Adds a token and moves behind its characters. -/
def take (length : Nat) (t : Token) : Cut Unit :=
  modify fun s => { s.push t with cursor := s.cursor.skip length }

/-- Moves to the next token, over blanks, line ends and comments. Where the indentation of a line
has to stand, a tab is refused unless the line is empty; `isIndent` says that only blanks stand in
front on the line. -/
def skipToToken (isIndent : Bool) : Nat → Cut Unit
  | 0 => failure
  | fuel + 1 => do
    let s ← get
    match s.cursor.head? with
    | some ' ' =>
      set { s with cursor := s.cursor.next }
      skipToToken isIndent fuel
    | some '\t' =>
      if isIndent && !s.outer.isEmpty && decide ((s.cursor.column : Int) < s.indent) then
        match s.cursor.atLineEnd? with
        | some cursor => set { s with cursor }
        | none => failure
      else set { s with cursor := s.cursor.next }
      skipToToken isIndent fuel
    | some '\n' =>
      set { s with cursor := s.cursor.next, keyAllowed := s.keyAllowed || !s.inFlow }
      skipToToken true fuel
    | some '#' =>
      set { s with cursor := s.cursor.skipLine }
      skipToToken isIndent fuel
    | _ => return ()

/-! ## Tokens one by one -/

/-- Refuses a comment that is joined to the token in front of it. -/
def noComment : Cut Unit := do
  if (← get).cursor.isAt '#' then failure

/-- A mark of a document: all blocks end. Nothing but a comment stands behind the mark at the end. -/
def documentMark (t : Token) : Cut Unit := do
  modify (·.unindentTo (-1))
  dropKey
  allowKey false
  take 3 t
  if t = .documentEnd && (← get).cursor.atLineEnd?.isNone then failure

/-- A character of a name. -/
def isNameChar (c : Char) : Bool :=
  ('a' ≤ c && c ≤ 'z') || ('A' ≤ c && c ≤ 'Z') || ('0' ≤ c && c ≤ '9') || c == '_' || c == '-'

/-- Whether a text is a version number: digits, a dot, digits. -/
def isVersion (cs : List Char) : Bool :=
  let minor := (cs.dropWhile Text.isDigit).drop 1
  !(cs.takeWhile Text.isDigit).isEmpty && (cs.dropWhile Text.isDigit).head? == some '.' &&
    !minor.isEmpty && minor.all Text.isDigit

/-- A directive, which fills its line. -/
def directive : Cut Unit := do
  modify (·.unindentTo (-1))
  dropKey
  allowKey false
  let c := (← get).cursor
  let line := c.rest.takeWhile (· != '\n')
  let name := (line.drop 1).takeWhile isNameChar
  let arguments := (line.drop (1 + name.length)).takeWhile (· != '#')
  if name.isEmpty then failure
  if name = "YAML".toList && !isVersion (arguments.filter fun ch => !isBlank ch) then failure
  take line.length .directive

/-- An opening bracket or brace, which may begin a key. -/
def openFlow (t : Token) : Cut Unit := do
  saveKey
  modify fun s =>
    let s := s.addMargin
    { s with keyStarts := {} :: s.keyStarts }
  allowKey true
  take 1 t
  noComment

/-- Lets a colon follow without a blank behind it, past the blanks that stand here. -/
def allowJoined : Cut Unit :=
  modify fun s => { s with joinedAt := (s.cursor.skipWhile isBlank).index }

/-- A closing bracket or brace. -/
def closeFlow (t : Token) : Cut Unit := do
  dropKey
  modify fun s => if s.inFlow then { s with keyStarts := s.keyStarts.drop 1 } else s
  allowKey false
  take 1 t
  noComment
  if (← get).inFlow then allowJoined

/-- A comma between brackets. -/
def separator : Cut Unit := do
  dropKey
  allowKey true
  take 1 .separator
  noComment

/-- The dash before an item of a block. A tab may not stand between two dashes. -/
def item : Cut Unit := do
  let s ← get
  if s.inFlow || !s.keyAllowed then failure
  let blanks := (s.cursor.skip 1).rest.takeWhile isBlank
  let behind := (s.cursor.skip 1).skipWhile isBlank
  if blanks.contains '\t' && behind.isAt '-' && Cursor.beginsBlank (behind.rest.drop 1) then failure
  let s := s.indentTo s.cursor.column s.tokens.length .blockSequence
  let opens := (behind.head?.map fun c => c == '\n' || c == '#' || isFlowMark c).getD false
  set (if opens then s.addMargin else s)
  dropKey
  allowKey true
  take 1 .item

/-- The question mark before a key. -/
def explicitKey : Cut Unit := do
  let s ← get
  if !s.inFlow then
    if !s.keyAllowed then failure
    set (s.indentTo s.cursor.column s.tokens.length .blockMapping)
  dropKey
  allowKey (!s.inFlow)
  take 1 .key
  if ((← get).cursor.skipWhile (· == ' ')).isAt '\t' then failure

/-- Whether a character that is no digit, letter or dash, or a blank of the plain kind, stands behind a
tab. -/
def mayFollowTab (c : Cursor) : Bool :=
  (c.rest.takeWhile isBlank).contains ' ' ||
    !((c.skipWhile isBlank).head?.map fun ch => ch == '-' || ch.isAlphanum).getD false

/-- The colon behind a key. -/
def value : Cut Unit := do
  let s ← get
  let k := s.keyStart
  let behind := s.cursor.skip 1
  if behind.isAt '\t' && !mayFollowTab behind then failure
  if k.isPossible then
    let s := ((s.insert k.position .key).indentTo k.column k.position .blockMapping).addMargin
    set (s.withKeyStart { k with isPossible := false })
    allowKey false
  else
    if s.inFlow then allowKey false
    else
      if !s.keyAllowed then failure
      set (s.indentTo s.cursor.column s.tokens.length .blockMapping).addMargin
      allowKey true
  take 1 .value

/-- An anchor or an alias, whose name reaches up to a blank or a mark. -/
def named (make : String → Token) : Cut Unit := do
  saveKey
  allowKey false
  let c := (← get).cursor
  let name := (c.rest.drop 1).takeWhile fun ch => !isBlank ch && ch != '\n' && !isFlowMark ch
  if name.isEmpty then failure
  take (1 + name.length) (make (String.ofList name))

/-- A character of the suffix of a tag. -/
def isTagChar (c : Char) : Bool :=
  isNameChar c || ";/?:@&=+$,.!~*'()[]".toList.contains c

/-- The tag that the characters behind an exclamation mark write, as its handle and suffix. -/
def tagOf (cs : List Char) : Option Token :=
  let name := cs.takeWhile isNameChar
  match cs with
  | '<' :: rest =>
    let uri := rest.dropLast
    if rest.getLast? = some '>' && !uri.isEmpty && uri.all isTagChar then
      some (.tag "" (String.ofList uri))
    else none
  | _ =>
    match cs.drop name.length with
    | '!' :: suffix =>
      if suffix.isEmpty || !suffix.all isTagChar then none
      else some (.tag ("!" ++ String.ofList name ++ "!") (String.ofList suffix))
    | _ =>
      if !cs.all isTagChar then none
      else if cs.isEmpty then some (.tag "" "!")
      else some (.tag "!" (String.ofList cs))

/-- A tag, which reaches up to the next blank. -/
def tag : Cut Unit := do
  saveKey
  allowKey false
  let written := ((← get).cursor.rest.drop 1).takeWhile fun c => !isBlank c && c != '\n'
  match tagOf written with
  | some t => take (1 + written.length) t
  | none => failure

/-- A block of lines. -/
def block (isLiteral : Bool) : Cut Unit := do
  saveKey
  allowKey true
  let s := (← get).leaveMargin
  match readBlock isLiteral s.indent s.cursor with
  | some (text, cursor) => set { s.push (.scalar false text) with cursor }
  | none => failure

/-- What may follow a text between quotes that begins on a line: its line end, a mark that ends it
inside brackets, or the colon that makes it a key. -/
def mayFollowQuoted (inFlow : Bool) (line : Nat) (c : Cursor) : Bool :=
  let behind := c.skipWhile isBlank
  match behind.head? with
  | none => true
  | some ch =>
    ch == '\n' || (ch == '#' && behind.index != c.index) ||
      (inFlow && (ch == ',' || ch == ']' || ch == '\x7d')) ||
      (ch == ':' && (inFlow || c.line == line))

/-- A text between quotes. -/
def quoted (quote : Char) : Cut Unit := do
  saveKey
  allowKey false
  let s ← get
  match readQuoted quote s.indent s.cursor with
  | some (text, cursor) =>
    if !mayFollowQuoted s.inFlow s.cursor.line cursor then failure
    set { s.push (.scalar false text) with cursor }
    skipToToken false (cursor.rest.length + 1)
    allowJoined
  | none => failure

/-- A plain text. -/
def plain : Cut Unit := do
  saveKey
  allowKey false
  let s := (← get).leaveMargin
  if s.inFlow && decide ((s.cursor.column : Int) < s.indent + 1) then failure
  match readPlain ⟨s.inFlow, s.indent⟩ s.cursor with
  | some (text, ended, cursor) =>
    set { s.push (.scalar true text) with cursor, keyAllowed := ended }
  | none => failure

/-- The token at the cursor, which stands at the character `c` with `rest` behind it. -/
def oneToken (c : Char) (rest : List Char) : Cut Unit := do
  let s ← get
  let blankNext := Cursor.beginsBlank rest
  let markNext := (rest.head?.map isFlowMark).getD false
  if s.cursor.column = 0 ∧ c = '%' then directive
  else if s.cursor.isAtMark "---" then documentMark .documentStart
  else if s.cursor.isAtMark "..." then documentMark .documentEnd
  else if (s.cursor.column : Int) < s.indent then failure
  else if c = '[' then openFlow .flowSequence
  else if c = '\x7b' then openFlow .flowMapping
  else if c = ']' then closeFlow .flowSequenceEnd
  else if c = '\x7d' then closeFlow .flowMappingEnd
  else if c = ',' then separator
  else if c = '-' ∧ blankNext then item
  else if c = '?' ∧ blankNext then explicitKey
  else if c = ':' ∧ (blankNext ∨ (s.inFlow ∧ (markNext ∨ s.cursor.index = s.joinedAt))) then value
  else if c = '*' then named .alias
  else if c = '&' then named .anchor
  else if c = '!' then tag
  else if c = '|' ∧ !s.inFlow then block true
  else if c = '>' ∧ !s.inFlow then block false
  else if c = '\'' ∨ c = '"' then quoted c
  else if c = '%' ∨ c = '@' ∨ c = '\x60' then failure
  else plain

/-- Cuts the whole document. Each token consumes a character, so their number bounds the number of
tokens. -/
def all : Nat → Cut Unit
  | 0 => failure
  | fuel + 1 => do
    let c := (← get).cursor
    skipToToken (c.column == 0) (c.rest.length + 1)
    dropStaleKeys
    let s ← get
    set (s.unindentTo s.cursor.column)
    match s.cursor.rest with
    | [] =>
      modify (·.unindentTo (-1))
      dropKey
    | c :: rest =>
      oneToken c rest
      all fuel

end Cut

/-- The tokens of a document. -/
def tokens? (document : String) : Option (List Token) :=
  let cs := withLineFeeds document.toList
  ((Cut.all (cs.length + 1)).run { cursor := ⟨cs, 0, 0, 0⟩ }).map fun (_, s) => s.tokens

example :
    tokens? "a: 1\n" =
      some [.blockMapping, .key, .scalar true "a", .value, .scalar true "1", .blockEnd] := by
  decide +kernel

end BuildAhead.Yaml
