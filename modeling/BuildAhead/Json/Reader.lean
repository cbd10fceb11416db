import BuildAhead.Json.Scalars

set_option autoImplicit false

/-!
# Json: reading

The reader of the JSON text format. It accepts exactly one value with blanks around it, nested no
deeper than 127 levels. Who reads records names their fields beforehand; a member of a record that is
none of these is skipped, and only its form is checked, however deep it is.
-/

namespace BuildAhead.Json

open Text (Step expect)

/-- What is asked of a value. A shape that the value does not have asks nothing. -/
inductive Shape where
  /-- everything -/
  | whole
  /-- the fields of these names, in this order when it is written as an array -/
  | record (fields : List (String × Shape))
  /-- all items -/
  | list (item : Shape)
  /-- the values of all keys -/
  | table (value : Shape)
  deriving Repr, Inhabited

namespace Shape

/-- What is asked of a member of an object; none when it is skipped. -/
def member? (key : String) : Shape → Option Shape
  | .record fields => Dict.lookup key fields
  | .table value => some value
  | _ => some .whole

/-- What is asked of the item of an array at an index. -/
def item (index : Nat) : Shape → Shape
  | .record fields => (fields[index]?.map (·.2)).getD .whole
  | .list item => item
  | _ => .whole

end Shape

mutual

/-- The characters behind a value. -/
def skipValue : Nat → List Char → Option (List Char)
  | 0, _ => none
  | fuel + 1, cs =>
    match skipSpaces cs with
    | 'n' :: rest => expect "ull" rest
    | 't' :: rest => expect "rue" rest
    | 'f' :: rest => expect "alse" rest
    | '"' :: rest => skipString rest
    | '-' :: rest => skipNumber rest
    | '[' :: rest =>
      match skipSpaces rest with
      | ']' :: rest => some rest
      | rest => skipItems fuel rest
    | '\x7b' :: rest =>
      match skipSpaces rest with
      | '\x7d' :: rest => some rest
      | rest => skipMembers fuel rest
    | rest => skipNumber rest

/-- The characters behind the items of an array and its closing bracket. -/
def skipItems : Nat → List Char → Option (List Char)
  | 0, _ => none
  | fuel + 1, cs => do
    match skipSpaces (← skipValue fuel cs) with
    | ',' :: rest => skipItems fuel rest
    | ']' :: rest => some rest
    | _ => none

/-- The characters behind the members of an object and its closing brace. -/
def skipMembers : Nat → List Char → Option (List Char)
  | 0, _ => none
  | fuel + 1, cs => do
    match skipSpaces cs with
    | '"' :: rest =>
      match skipSpaces (← skipString rest) with
      | ':' :: rest =>
        match skipSpaces (← skipValue fuel rest) with
        | ',' :: rest => skipMembers fuel rest
        | '\x7d' :: rest => some rest
        | _ => none
      | _ => none
    | _ => none

end

mutual

/-- Reads what is asked of a value, which may hold `depth` further levels. -/
def readValue (shape : Shape) : Nat → Nat → Step Json
  | 0, _, _ => none
  | fuel + 1, depth, cs =>
    match skipSpaces cs with
    | 'n' :: rest => (expect "ull" rest).map (Json.null, ·)
    | 't' :: rest => (expect "rue" rest).map (Json.bool true, ·)
    | 'f' :: rest => (expect "alse" rest).map (Json.bool false, ·)
    | '"' :: rest => (readString (rest.length + 1) [] rest).map fun (s, r) => (.text s, r)
    | '-' :: rest => readNumber true rest
    | '[' :: rest =>
      if depth = 0 then none
      else
        match skipSpaces rest with
        | ']' :: rest => some (.array [], rest)
        | rest => (readItems shape fuel (depth - 1) [] rest).map fun (l, r) => (.array l, r)
    | '\x7b' :: rest =>
      if depth = 0 then none
      else
        match skipSpaces rest with
        | '\x7d' :: rest => some (.object [], rest)
        | rest => (readMembers shape fuel (depth - 1) [] rest).map fun (l, r) => (.object l, r)
    | rest => readNumber false rest

/-- Reads the items of an array of a shape and its closing bracket; `read` holds the items so far,
the last one first. -/
def readItems (shape : Shape) : Nat → Nat → List Json → Step (List Json)
  | 0, _, _, _ => none
  | fuel + 1, depth, read, cs => do
    let (item, rest) ← readValue (shape.item read.length) fuel depth cs
    match skipSpaces rest with
    | ',' :: rest => readItems shape fuel depth (item :: read) rest
    | ']' :: rest => some ((item :: read).reverse, rest)
    | _ => none

/-- Reads the members of an object of a shape and its closing brace. -/
def readMembers (shape : Shape) : Nat → Nat → List (String × Json) → Step (List (String × Json))
  | 0, _, _, _ => none
  | fuel + 1, depth, read, cs => do
    match skipSpaces cs with
    | '"' :: rest =>
      let (key, rest) ← readString (rest.length + 1) [] rest
      match skipSpaces rest with
      | ':' :: rest =>
        let (read, rest) ←
          match shape.member? key with
          | some inner =>
            (readValue inner fuel depth rest).map fun (v, r) => ((key, v) :: read, r)
          | none => (skipValue fuel rest).map fun r => (read, r)
        match skipSpaces rest with
        | ',' :: rest => readMembers shape fuel depth read rest
        | '\x7d' :: rest => some (read.reverse, rest)
        | _ => none
      | _ => none
    | _ => none

end

/-- The deepest nesting that is read. -/
def depthLimit : Nat := 127

/-- What is asked of the value of a JSON document. Each step of the reader consumes a character, so
twice their number bounds its steps. -/
def readAs? (shape : Shape) (document : String) : Option Json :=
  let cs := document.toList
  match readValue shape (2 * cs.length + 2) depthLimit cs with
  | some (value, rest) => if (skipSpaces rest).isEmpty then some value else none
  | none => none

/-- The value of a JSON document. -/
def read? (document : String) : Option Json := readAs? .whole document

example : (readAs? (.record [("a", .whole)]) "\x7b\"b\": [1e999], \"a\": 2\x7d").map
    (fun v => (v.member? "a").isSome) = some true := by
  decide +kernel

end BuildAhead.Json
