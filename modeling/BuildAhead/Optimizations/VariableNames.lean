import BuildAhead.Code.Splitting
import BuildAhead.Modules.Basic
import BuildAhead.Number.Sum

set_option autoImplicit false

/-!
# Optimizations: property names of environment variables

An environment variable such as `A_B_C` can set any property whose name joins its segments, in lower
case, with dots or dashes. All these names are computed at build time and put into an optimization
loader. A variable with `n` segments has `2 ^ (n - 1)` names, so a variable with too many segments
is left out and reported.
-/

namespace BuildAhead.VariableNames

/-- The segments of a variable: what stands between underscores. -/
def segmentsOf (name : String) : List String := Text.words (· == '_') name

/-- The number of segments of a variable. -/
def segmentCount (name : String) : Nat := (segmentsOf name).length

/-- The word of 64 bits in which the bit with this number is set; none when a word has no such
bit. -/
def bit? (number : Nat) : Option UInt64 :=
  if number < 64 then some (1 <<< number.toUInt64) else none

/-- The segments behind the first one, each with the bit that chooses the separator in front of it:
the lowest bit the last separator. None when a word has too few bits. -/
def withBits? : List String → Option (List (UInt64 × String))
  | [] => some []
  | segment :: rest => do
    let bit ← bit? rest.length
    let further ← withBits? rest
    return (bit, segment) :: further

/-- The name that a mask chooses. A set bit chooses a dash. -/
def joinBy (mask : UInt64) (name : String) : List (UInt64 × String) → String
  | [] => name
  | (bit, segment) :: rest =>
    joinBy mask (name.push (if mask &&& bit = 0 then '.' else '-') ++ segment) rest

/-- The names that segments make with all choices of separators, in the order of the masks, so a dot
comes before a dash and the first separator decides first. -/
def joins? (first : String) (rest : List String) : Option (List String) := do
  let masks ← bit? rest.length
  let choices ← withBits? rest
  return (List.range masks.toNat).map fun mask => joinBy mask.toUInt64 first choices

/-- The most segments that any limit allows. -/
def hardLimit : Nat := 24

/-- The property names of a variable, lower-cased by this table; none when it has more segments
than the limit allows. -/
def namesWith? (letters : Text.CaseTable) (name : String) (limit : Nat) : Option (List String) :=
  let segments := segmentsOf (letters.lower name)
  if min limit hardLimit < segments.length then none
  else
    match segments with
    | [] => some []
    | first :: rest => joins? first rest

/-- The property names of a variable; none when it has more segments than the limit allows. -/
def namesOf? (name : String) (limit : Nat) : Option (List String) := namesWith? .standard name limit

example :
    namesOf? "A_B_C" 16 = some ["a.b.c", "a.b-c", "a-b.c", "a-b-c"] := by
  decide +kernel

/-- The property names of each variable that has any, and the variables that were left out, in the
order in which they are given. -/
def tableWith (letters : Text.CaseTable) (names : List String) (limit : Nat) :
    Dict (List String) × List String :=
  let named := names.map fun v => (v, namesWith? letters v limit)
  (.ofList (named.filterMap fun e =>
      match e.2 with
      | some (n :: ns) => some (e.1, n :: ns)
      | _ => none),
    (named.filter fun e => e.2.isNone).map (·.1))

def tableOf (names : List String) (limit : Nat) : Dict (List String) × List String :=
  tableWith .standard names limit

/-! ## The loader -/

def moduleId : String := "precompute.environment.properties"
def limitKey : String := "precompute.environment.properties.max.segments"
def defaultLimit : Nat := 16
def loaderName : String := "EnvironmentPropertiesOptimizationLoader"

/-- The configured limit. -/
def limitOf (s : Settings) : Except BuildError Nat := do
  let configured ← s.int limitKey defaultLimit
  if configured < 1 ∨ (hardLimit : Int) < configured then
    throw (.configuration
      (limitKey ++ " must be between 1 and " ++ toString hardLimit ++ ", got " ++
        toString configured))
  return configured.toNat

/-- The bytes of names written between double quotes with commas and blanks between them. -/
def quotedSize (names : List String) : Nat :=
  sumOf (names.map fun n => n.utf8ByteSize + 2) + 2 * (names.length - 1)

/-- What the statement for a variable costs: its fixed parts, the variable, the names. -/
def entryCost (e : String × List String) : Nat :=
  37 + e.1.utf8ByteSize + quotedSize e.2 + 2

/-- The statement that enters a variable. -/
def putEntry (e : String × List String) : Code.Stmt :=
  .eval (.callOn (.ident "env") "put" [.text e.1, .list (e.2.map .text)])

/-- Maps each variable to its names, through sub-loaders. -/
def loaderBody (table : Dict (List String)) : LoaderBody :=
  let segments := Code.segments Code.defaultMaxUnitSize entryCost table.toList
  let loaders := Code.SubLoaders.ofSegments "load" [⟨"env", "Map"⟩]
    (segments.map fun s => s.map putEntry)
  { statements :=
      .bind "env" (.construct "HashMap" []) :: loaders.calls ++
        [.ret (.callStatic Runtime.environmentProperties "of" [.ident "env"])]
    helpers := loaders.methods }

/-- The message about a variable that is left out. -/
def skippedMessage (limit : Nat) (name : String) : String :=
  "Skipping environment variable " ++ name ++ ": " ++ toString (segmentCount name) ++
    " segments exceed the limit of " ++ toString limit

/-- The module that computes the names, in lower case by this table. -/
def moduleWith (letters : Text.CaseTable) : Module where
  descriptor :=
    { id := moduleId
      description :=
        "Precomputes configuration property keys from the current environment variables"
      options :=
        [⟨limitKey,
          "Environment variables with more '_' separated segments than this are not precomputed",
          toString defaultLimit⟩] }
  generate := do
    let c ← get
    let limit ←
      match limitOf c.settings with
      | .ok limit => pure limit
      | .error e => throw e
    let (table, skipped) := tableWith letters c.analyzer.snapshot.environmentVariables.keys limit
    modify fun c =>
      { c with diagnostics := c.diagnostics.addAll moduleId (skipped.map (skippedMessage limit)) }
    let _ ← Generation.registerStaticOptimization loaderName Runtime.environmentProperties
      (loaderBody table)

/-- The module that computes the names. -/
def module : Module := moduleWith .standard

end BuildAhead.VariableNames
