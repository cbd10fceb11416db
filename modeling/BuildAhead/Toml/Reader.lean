import BuildAhead.Toml.Moment
import BuildAhead.Toml.Numbers
import BuildAhead.Toml.Strings
import BuildAhead.Toml.Value

set_option autoImplicit false

/-!
# Toml: documents

The reader of TOML documents. A key has one value, a table has one header, and a table that was
begun in one way is not added to in another: `addEntry` and `openTable` state these rules.
-/

namespace BuildAhead.Toml

open Text (Step expect)

/-- The entries of a table. -/
abbrev Entries : Type := List (String × Value)

/-! ## Tables -/

/-- The entries with a value in place of that of a key, or behind the others when it is new. -/
def Entries.put (key : String) (value : Value) : Entries → Entries
  | [] => [(key, value)]
  | (k, v) :: rest => if k = key then (k, value) :: rest else (k, v) :: Entries.put key value rest

/-- The value of a key. -/
def Entries.get? (key : String) (entries : Entries) : Option Value := Dict.lookup key entries

/-- The entries after `f` has changed those of the table that a path leads to. Tables on the way that
are missing are made. Of tables of one name the last one is meant. A dotted key leads only through
tables that have no header. -/
def within (dotted : Bool) (f : Origin → Entries → Option Entries) :
    List String → Origin → Entries → Option Entries
  | [], origin, entries => f origin entries
  | k :: ks, _, entries =>
    match Entries.get? k entries with
    | none => do
      let origin : Origin := if dotted then .dotted else .passage
      let inner ← within dotted f ks origin []
      some (entries.put k (.table origin inner))
    | some (.table origin inner) =>
      if origin = .inline ∨ (dotted ∧ origin = .header) then none
      else do
        let inner ← within dotted f ks origin inner
        some (entries.put k (.table origin inner))
    | some (.tables items) =>
      match items.getLast? with
      | none => none
      | some last => do
        let inner ← within dotted f ks .header last
        some (entries.put k (.tables (items.dropLast ++ [inner])))
    | some _ => none

/-- Enters a value under a new key. A dotted key must end in a table that dotted keys have made. -/
def enter (isPlain : Bool) (key : String) (value : Value) (origin : Origin) (entries : Entries) :
    Option Entries :=
  if (origin = .dotted) = isPlain then none
  else if (Entries.get? key entries).isSome then none
  else some (entries ++ [(key, value)])

/-- Enters a value under a key, dotted or not, of a table. -/
def addEntry (origin : Origin) (entries : Entries) (key : List String) (value : Value) :
    Option Entries :=
  match key.getLast? with
  | none => none
  | some last => within true (enter (key.length == 1) last value) key.dropLast origin entries

/-- Begins the table of a header. It may have been a step on the way to other tables before. -/
def beginTable (key : String) (entries : Entries) : Option Entries :=
  match Entries.get? key entries with
  | none => some (entries ++ [(key, .table .header [])])
  | some (.table .passage inner) => some (entries.put key (.table .header inner))
  | some _ => none

/-- Begins one more table of a name. -/
def beginItem (key : String) (entries : Entries) : Option Entries :=
  match Entries.get? key entries with
  | none => some (entries ++ [(key, .tables [[]])])
  | some (.tables items) => some (entries.put key (.tables (items ++ [[]])))
  | some _ => none

/-- Begins the table of a header that names a path from the document on. -/
def openTable (begin : String → Entries → Option Entries) (document : Entries)
    (path : List String) : Option Entries :=
  match path.getLast? with
  | none => none
  | some last => within false (fun _ entries => begin last entries) path.dropLast .header document

/-! ## Blanks and keys -/

/-- The characters behind blanks. -/
def skipBlanks (cs : List Char) : List Char := cs.dropWhile isBlank

/-- The characters behind a comment, if there is one. -/
def skipComment : List Char → List Char
  | '#' :: rest => rest.dropWhile isLineChar
  | cs => cs

/-- The characters behind the end of a line, before which blanks and a comment may stand. -/
def endLine (cs : List Char) : Option (List Char) :=
  match skipComment (skipBlanks cs) with
  | [] => some []
  | cs => behindNewline cs

/-- The characters behind blanks, comments and line feeds. -/
def skipLines : Nat → List Char → List Char
  | 0, cs => cs
  | fuel + 1, cs =>
    let cs := skipComment (skipBlanks cs)
    match behindNewline cs with
    | some rest => skipLines fuel rest
    | none => cs

/-- A character of a key without quotes. -/
def isKeyChar (c : Char) : Bool :=
  ('a' ≤ c && c ≤ 'z') || ('A' ≤ c && c ≤ 'Z') || ('0' ≤ c && c ≤ '9') || c == '_' || c == '-'

/-- Reads one part of a key. -/
def readKeyPart : Step String := fun cs =>
  let plain := cs.takeWhile isKeyChar
  if plain.isEmpty then readLineString cs
  else some (String.ofList plain, cs.dropWhile isKeyChar)

/-- The deepest nesting, of values and of dotted keys. -/
def depthLimit : Nat := 79

/-- Reads the parts of a key, with blanks around the dots and at the end. -/
def readKeyParts : Nat → Step (List String)
  | 0, _ => none
  | fuel + 1, cs => do
    let (part, rest) ← readKeyPart cs
    match skipBlanks rest with
    | '.' :: rest =>
      let (parts, rest) ← readKeyParts fuel (skipBlanks rest)
      some (part :: parts, rest)
    | rest => some ([part], rest)

/-- Reads a key. -/
def readKey : Step (List String) := readKeyParts depthLimit

/-! ## Values -/

/-- Reads a value that holds no others. -/
def readScalar (cs : List Char) : Option (Value × List Char) :=
  match cs with
  | '"' :: _ | '\'' :: _ => (readString cs).map fun (s, rest) => (.text s, rest)
  | 't' :: rest => (expect "rue" rest).map fun rest => (.bool true, rest)
  | 'f' :: rest => (expect "alse" rest).map fun rest => (.bool false, rest)
  | _ =>
    match readMoment cs with
    | some (s, rest) => some (.moment s, rest)
    | none =>
      match readFractional cs with
      | some (x, rest) => some (.double x, rest)
      | none =>
        match readNamed cs with
        | some (x, rest) => some (.double x, rest)
        | none => (readInt cs).map fun (n, rest) => (.int n, rest)

mutual

/-- Reads a value that may hold `depth` further levels. -/
def readValue : Nat → Nat → Step Value
  | 0, _, _ => none
  | fuel + 1, depth, cs =>
    match cs with
    | '[' :: rest =>
      if depth = 0 then none
      else (readItems fuel (depth - 1) [] rest).map fun (items, rest) => (.array items, rest)
    | '\x7b' :: rest =>
      if depth = 0 then none
      else
        match skipBlanks rest with
        | '\x7d' :: rest => some (.table .inline [], rest)
        | rest =>
          (readMembers fuel (depth - 1) [] rest).map fun (entries, rest) =>
            (.table .inline entries, rest)
    | cs => readScalar cs

/-- Reads the items of an array and its closing bracket; `read` holds the items so far, the last
one first. A comma may stand behind the last item. -/
def readItems : Nat → Nat → List Value → Step (List Value)
  | 0, _, _, _ => none
  | fuel + 1, depth, read, cs =>
    match skipLines cs.length cs with
    | ']' :: rest => some (read.reverse, rest)
    | cs => do
      let (item, rest) ← readValue fuel depth cs
      match skipLines rest.length rest with
      | ',' :: rest => readItems fuel depth (item :: read) rest
      | ']' :: rest => some ((item :: read).reverse, rest)
      | _ => none

/-- Reads the entries of a table in braces, all on one line, and the closing brace. -/
def readMembers : Nat → Nat → Entries → Step Entries
  | 0, _, _, _ => none
  | fuel + 1, depth, entries, cs => do
    let (key, rest) ← readKey (skipBlanks cs)
    match rest with
    | '=' :: rest =>
      let (value, rest) ← readValue fuel depth (skipBlanks rest)
      let entries ← addEntry .inline entries key value
      match skipBlanks rest with
      | ',' :: rest => readMembers fuel depth entries rest
      | '\x7d' :: rest => some (entries, rest)
      | _ => none
    | _ => none

end

/-! ## Documents -/

/-- A document that has been read up to a header: its entries, and the path of the table to which the
following lines belong. -/
structure Draft where
  entries : Entries := []
  current : List String := []
  deriving Inhabited

/-- The draft with one more entry of the current table. -/
def Draft.add (d : Draft) (key : List String) (value : Value) : Option Draft := do
  let entries ← within false
    (fun origin entries => addEntry origin entries key value) d.current .header d.entries
  some { d with entries }

/-- Reads a header behind its first bracket. -/
def readHeader (d : Draft) : Step Draft := fun cs =>
  match cs with
  | '[' :: rest => do
    let (path, rest) ← readKey (skipBlanks rest)
    let rest ← expect "]]" rest
    some (⟨← openTable beginItem d.entries path, path⟩, rest)
  | rest => do
    let (path, rest) ← readKey (skipBlanks rest)
    let rest ← expect "]" rest
    some (⟨← openTable beginTable d.entries path, path⟩, rest)

/-- Reads a key with its value. -/
def readEntry (d : Draft) : Step Draft := fun cs => do
  let (key, rest) ← readKey cs
  let rest ← expect "=" rest
  let (value, rest) ← readValue (2 * rest.length + 2) depthLimit (skipBlanks rest)
  some (← d.add key value, rest)

/-- Reads lines up to the end of the document. -/
def readLinesOf : Nat → Draft → List Char → Option Draft
  | 0, _, _ => none
  | fuel + 1, d, cs =>
    match skipLines cs.length cs with
    | [] => some d
    | '[' :: rest => do
      let (d, rest) ← readHeader d rest
      readLinesOf fuel d (← endLine rest)
    | cs => do
      let (d, rest) ← readEntry d cs
      readLinesOf fuel d (← endLine rest)

/-- The entries of a TOML document. Each line consumes a character, so their number bounds the number
of lines. -/
def read? (document : String) : Option Entries :=
  let cs :=
    match document.toList with
    | '\uFEFF' :: rest => rest
    | cs => cs
  (readLinesOf (cs.length + 1) {} cs).map Draft.entries

/-- The document as a JSON value. -/
def readJson? (document : String) : Option Json :=
  (read? document).map fun entries => .object (Value.entriesJson entries)

end BuildAhead.Toml
