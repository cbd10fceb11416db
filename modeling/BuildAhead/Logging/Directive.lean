import BuildAhead.Logging.Record
import BuildAhead.Text.Alphanumeric

set_option autoImplicit false

/-!
# Logging: directives

A directive sets the threshold of a part of the program, and perhaps of a span of its work only:
`target=level`, `target[span]=level`, `target[span{field=value}]=level`, a target alone, which
then has no limit, or a level alone, which is for every target.

A directive is read character by character. The characters are those of the text without the blanks
around it, while what is between two of them is cut from the text as it stands; so a blank in front
shifts every cut by one.
-/

namespace BuildAhead

/-- A threshold for the records of a target, or of all targets. -/
structure LogDirective where
  target : Option String := none
  threshold : LogThreshold := some .trace
  span : Option String := none
  fields : List String := []
  deriving DecidableEq, Repr, Inhabited

/-- Why a text is no directive. -/
inductive DirectiveFault where
  | malformed
  | unknownLevel
  deriving DecidableEq, Repr, Inhabited

/-- The wording of a fault. -/
def DirectiveFault.message : DirectiveFault → String
  | .malformed => "invalid filter directive"
  | .unknownLevel =>
    "error parsing level filter: expected one of \"off\", \"error\", \"warn\", \"info\", " ++
      "\"debug\", \"trace\", or a number 0-5"

namespace LogDirective

/-- Where the reading of a directive stands, with the place where the part being read began. -/
inductive Reading where
  | start
  /-- in a target or a level -/
  | word (first : Nat)
  | span (first : Nat)
  | field (first : Nat)
  /-- behind the fields -/
  | fields
  /-- behind the span -/
  | target
  | level (first : Nat)
  | done
  deriving DecidableEq, Repr, Inhabited

/-- The text from one place up to another. -/
def cut (cs : List Char) (first last : Nat) : String := String.ofList ((cs.take last).drop first)

/-- The text from a place on. -/
def rest (cs : List Char) (first : Nat) : String := String.ofList (cs.drop first)

/-- The directive with the threshold that a text names; no text means no limit. -/
def withLevel (d : LogDirective) (text : String) : Except DirectiveFault LogDirective :=
  if text.isEmpty then .ok { d with threshold := some .trace }
  else
    match LogThreshold.parse? text with
    | some threshold => .ok { d with threshold }
    | none => .error .unknownLevel

/-- The directive of a word alone: a level, or else a target without a limit. -/
def withWord (d : LogDirective) (text : String) : LogDirective :=
  match LogThreshold.parse? text with
  | some threshold => { d with threshold, target := none }
  | none => { d with threshold := some .trace, target := some text }

/-- The directive with a further field, which must not be empty. -/
def withField (d : LogDirective) (text : String) : Except DirectiveFault LogDirective :=
  if text.isEmpty then .error .malformed else .ok { d with fields := d.fields ++ [text] }

/-- Whether a directive may begin with this character. -/
def canBegin (c : Char) : Bool :=
  c == '-' || c == ':' || c == '_' || Text.isAlphanumeric c

/-- Reads the character `c` at place `i`. -/
def step (cs : List Char) (d : LogDirective) (i : Nat) (c : Char) :
    Reading → Except DirectiveFault (LogDirective × Reading)
  | .start =>
    if c = '[' then .ok (d, .span (i + 1))
    else if canBegin c then .ok (d, .word i)
    else .error .malformed
  | .word first =>
    if c = '=' then .ok ({ d with target := some (cut cs first i) }, .level (i + 1))
    else if c = '[' then .ok ({ d with target := some (cut cs first i) }, .span (i + 1))
    else if c = ',' then .ok (d.withWord (rest cs first), .done)
    else .ok (d, .word first)
  | .span first =>
    if c = ']' then .ok ({ d with span := some (cut cs first i) }, .target)
    else if c = '\x7b' then
      let name := cut cs first i
      .ok ({ d with span := if name.isEmpty then none else some name }, .field (i + 1))
    else .ok (d, .span first)
  | .field first => do
    if c = '\x7d' then return (← d.withField (cut cs first i), .fields)
    else if c = ',' then return (← d.withField (cut cs first i), .field (i + 1))
    else return (d, .field first)
  | .fields => if c = ']' then .ok (d, .target) else .error .malformed
  | .target => if c = '=' then .ok (d, .level (i + 1)) else .error .malformed
  | .level first => do
    if c = ',' then return (← d.withLevel (cut cs first i), .done)
    else return (d, .level first)
  | .done => .error .malformed

/-- Reads characters from place `i` on. -/
def readAll (cs : List Char) (d : LogDirective) (r : Reading) (i : Nat) :
    List Char → Except DirectiveFault (LogDirective × Reading)
  | [] => .ok (d, r)
  | c :: more => do
    let (d, r) ← step cs d i c r
    readAll cs d r (i + 1) more

/-- Ends a reading. -/
def close (cs : List Char) (d : LogDirective) : Reading → Except DirectiveFault LogDirective
  | .word first => .ok (d.withWord (rest cs first))
  | .level first => d.withLevel (rest cs first)
  | .done => .ok d
  | _ => .error .malformed

/-- The directive that a text writes. -/
def parse (text : String) : Except DirectiveFault LogDirective := do
  let cs := text.toList
  let (d, r) ← readAll cs {} .start 0 (Text.trimChars cs)
  close cs d r

/-- Whether the directive is for what happens inside spans or with certain fields only. Records of
this program are in no span and have no field besides their message. -/
def isNarrow (d : LogDirective) : Bool := d.span.isSome || !d.fields.isEmpty

/-- Whether the directive decides about the records of a target. -/
def covers (d : LogDirective) (target : String) : Bool :=
  !d.isNarrow &&
    match d.target with
    | some t => Text.startsWith target t
    | none => true

/-- How specific the directive is: the bytes of its target, a directive for every target last. -/
def weight (d : LogDirective) : Nat :=
  match d.target with
  | some t => t.utf8ByteSize + 1
  | none => 0

example :
    (parse "a::b=WARN").toOption = some { target := some "a::b", threshold := some .warn } := by
  decide +kernel
example : (parse "debug").toOption = some { threshold := some .debug } := by decide +kernel
example : (parse "a=b").toOption = none ∧ (parse " a=info").toOption = none := by decide +kernel

end LogDirective

end BuildAhead
