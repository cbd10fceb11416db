import BuildAhead.Settings.Basic
import BuildAhead.Settings.ConfigTree
import BuildAhead.Number.Notation
import BuildAhead.Toml.Numbers

set_option autoImplicit false

/-!
# Yaml: nodes

The values of the YAML data format, and what a plain text stands for: nothing, a truth value, a
number, or itself.
-/

namespace BuildAhead.Yaml

/-- A YAML value. A number with a fraction keeps its written form. -/
inductive Node where
  | null
  | bool (b : Bool)
  | int (n : Int)
  | real (text : String)
  | text (s : String)
  | list (items : List Node)
  | map (entries : List (Node × Node))
  deriving Repr, Inhabited

/-- The integer that a text writes with digits of a base, with or without a sign. -/
def intOfBase? (base : Nat) (cs : List Char) : Option Int := do
  let n ←
    match cs with
    | '-' :: ds => if ds.isEmpty then none else (Text.natOfBase? base ds).map fun n => -(n : Int)
    | '+' :: ds => if ds.isEmpty then none else (Text.natOfBase? base ds).map Int.ofNat
    | ds => if ds.isEmpty then none else (Text.natOfBase? base ds).map Int.ofNat
  if Json.inInt64 n then some n else none

/-- The integer that a plain text stands for. -/
def intOf? (s : String) : Option Int :=
  match s.toList with
  | '0' :: 'x' :: ds => (intOfBase? 16 ds).orElse fun _ => Settings.parseInt? s
  | '0' :: 'o' :: ds => (intOfBase? 8 ds).orElse fun _ => Settings.parseInt? s
  | '+' :: ds => Settings.parseInt? (String.ofList ds)
  | _ => Settings.parseInt? s

/-- The exponent at the end of a number; zero when there is none. -/
def exponentOf? : List Char → Option Int
  | [] => some 0
  | e :: cs =>
    if e = 'e' ∨ e = 'E' then
      let (negative, ds) := Toml.readSign cs
      if ds.isEmpty || !ds.all Text.isDigit then none
      else some (if negative then -(Text.natOf ds : Int) else Text.natOf ds)
    else none

/-- The double that a text writes: digits with a point and an exponent, where digits may be missing on
one side of the point, or one of the names of infinity and of the undefined number. -/
def doubleOf? (s : String) : Option Binary64 :=
  let (negative, cs) := Toml.readSign s.toList
  let name := Text.asciiLower (String.ofList cs)
  if name = "inf" ∨ name = "infinity" then some (Toml.withSign negative .infinity)
  else if name = "nan" then some (Toml.withSign negative .nan)
  else
    let whole := cs.takeWhile Text.isDigit
    let (fraction, rest) : List Char × List Char :=
      match cs.dropWhile Text.isDigit with
      | '.' :: rest => (rest.takeWhile Text.isDigit, rest.dropWhile Text.isDigit)
      | rest => ([], rest)
    if whole.isEmpty && fraction.isEmpty then none
    else
      (exponentOf? rest).map fun power =>
        Toml.withSign negative
          (.ofDecimal (Text.natOf (whole ++ fraction)) (power - fraction.length))

/-- The further names of infinity and of the undefined number. -/
def namedReals : List String :=
  [".inf", ".Inf", ".INF", "+.inf", "+.Inf", "+.INF", "-.inf", "-.Inf", "-.INF", ".nan", ".NaN",
    ".NAN"]

/-- Whether a text is a number with a fraction. -/
def isReal (s : String) : Bool := namedReals.contains s || (doubleOf? s).isSome

namespace Node

/-- What a plain text stands for. -/
def ofPlain (s : String) : Node :=
  match intOf? s with
  | some n => .int n
  | none =>
    if s = "~" ∨ s = "null" then .null
    else if s = "true" then .bool true
    else if s = "false" then .bool false
    else if isReal s then .real s
    else .text s

/-- What a plain text with a tag of the standard kinds stands for; a text that does not fit its tag
has no value. -/
def ofTagged (suffix : String) (s : String) : Node :=
  if suffix = "bool" then
    if s = "true" then .bool true else if s = "false" then .bool false else .null
  else if suffix = "int" then
    match Settings.parseInt? s with
    | some n => .int n
    | none => .null
  else if suffix = "float" then if isReal s then .real s else .null
  else if suffix = "null" then .null
  else .text s

/-- The text of a truth value. -/
def boolText (b : Bool) : String := if b then "true" else "false"

/-- The name that a key stands for. -/
def keyText? : Node → Option String
  | .text s => some s
  | .int n => some (Decimal.ofInt n)
  | .bool b => some (boolText b)
  | .real s => some s
  | _ => none

mutual

/-- A value as a tree of settings. Numbers are written anew; a number that cannot be read, and a key
that is no scalar, are refused. -/
def toTree : Node → Option ConfigTree
  | .null => some .absent
  | .bool b => some (.scalar (boolText b))
  | .int n => some (.scalar (Decimal.ofInt n))
  | .real s => (doubleOf? s).map fun x => .scalar x.positional
  | .text s => some (.scalar s)
  | .list items => (itemsTree items).map ConfigTree.list
  | .map entries => (entriesTree entries).map ConfigTree.ofEntries

/-- The items of a list. -/
def itemsTree : List Node → Option (List ConfigTree)
  | [] => some []
  | v :: rest => do
    let t ← toTree v
    let ts ← itemsTree rest
    some (t :: ts)

/-- The entries of a mapping. -/
def entriesTree : List (Node × Node) → Option (List (String × ConfigTree))
  | [] => some []
  | (k, v) :: rest => do
    let key ← keyText? k
    let t ← toTree v
    let ts ← entriesTree rest
    some ((key, t) :: ts)

end

end Node

end BuildAhead.Yaml
