import BuildAhead.Application.Model
import BuildAhead.Code.Splitting

set_option autoImplicit false

/-!
# Services: tables

The table of a service: its providers in ascending order of their names, each once. A table can be
asked in two ways. A static table knows every provider from the start; a lazy one knows the names
and resolves each of them at most once, when it is first needed. Both give the same answers.
-/

namespace BuildAhead

/-- A candidate that the discovery kept. -/
structure ServiceCandidate where
  name : String
  implementation : ImplementationKind
  /-- whether its requirements are met -/
  available : Bool
  /-- whether it is included although they are not -/
  forced : Bool
  deriving DecidableEq, Repr, Inhabited

/-- A provider in a table. -/
structure TableEntry where
  name : String
  implementation : ImplementationKind
  deriving DecidableEq, Repr, Inhabited

namespace ServiceCandidate

/-- The place of a kind and of a truth value among their like. -/
def kindRank : ImplementationKind → Nat
  | .factoryMethod => 0
  | .noArgConstructor => 1

/-- The order of candidates: by name, then by kind, then those that are not available first, then
those that are not forced first. -/
def le (a b : ServiceCandidate) : Bool :=
  if a.name ≠ b.name then a.name < b.name
  else if a.implementation ≠ b.implementation then
    kindRank a.implementation < kindRank b.implementation
  else if a.available ≠ b.available then b.available
  else !a.forced || b.forced

/-- The candidates in ascending order. -/
def sorted (cs : List ServiceCandidate) : List ServiceCandidate := cs.mergeSort le

/-- The candidate as a table entry. -/
def entry (c : ServiceCandidate) : TableEntry := ⟨c.name, c.implementation⟩

end ServiceCandidate

/-- Of neighbours with one name only the first. -/
def firstOfEach {α : Type} (name : α → String) : List α → List α
  | [] => []
  | [a] => [a]
  | a :: b :: rest =>
    if name a = name b then firstOfEach name (a :: rest) else a :: firstOfEach name (b :: rest)
termination_by l => l.length

/-- The table of a service. -/
structure TableSpec where
  capability : String
  entries : List TableEntry
  deriving DecidableEq, Repr, Inhabited

namespace TableSpec

/-- The order of table entries: by name. -/
def le (a b : TableEntry) : Bool := decide (a.name ≤ b.name)

/-- The table of these candidates; of candidates with one name the first is taken. -/
def ofCandidates (capability : String) (cs : List ServiceCandidate) : TableSpec :=
  ⟨capability, firstOfEach TableEntry.name ((cs.map ServiceCandidate.entry).mergeSort le)⟩

/-- The name of the unit that holds the table. -/
def factoryName (t : TableSpec) : String := Names.simple t.capability ++ "Factory"

/-- The names of the providers. -/
def names (t : TableSpec) : List String := t.entries.map (·.name)

/-- The number of providers. -/
def size (t : TableSpec) : Nat := t.entries.length

/-- Whether there is no provider. -/
def isEmpty (t : TableSpec) : Bool := t.entries.isEmpty

/-- What an entry costs beyond the bytes of its name. -/
def entryOverhead : Nat := 32

/-- What an entry costs. -/
def entryCost (e : TableEntry) : Nat := e.name.utf8ByteSize + entryOverhead

/-- The entries cut into segments within a budget. -/
def segments (t : TableSpec) (maxUnitSize : Nat) : List (List TableEntry) :=
  Code.segments maxUnitSize entryCost t.entries

/-- The kind of a provider. -/
def kind? (t : TableSpec) (name : String) : Option ImplementationKind :=
  (t.entries.find? fun e => e.name == name).map (·.implementation)

end TableSpec

/-! ## Asking a table -/

/-- A table that knows every provider. -/
structure StaticTable where
  entries : List TableEntry
  deriving DecidableEq, Repr, Inhabited

namespace StaticTable

/-- The static table of a service. -/
def ofSpec (t : TableSpec) : StaticTable := ⟨t.entries⟩

/-- The providers whose names satisfy a predicate. -/
def find (t : StaticTable) (p : String → Bool) : List TableEntry :=
  t.entries.filter fun e => p e.name

/-- Whether there is a provider of this name. -/
def contains (t : StaticTable) (name : String) : Bool := t.entries.any (·.name == name)

end StaticTable

/-- Answers how an instance of a type is made; none when the type cannot be loaded. -/
abbrev Resolver : Type := String → Option ImplementationKind

/-- A name with what its resolution answered, once it was resolved. -/
structure LazyCell where
  name : String
  resolved : Option (Option ImplementationKind) := none
  deriving DecidableEq, Repr, Inhabited

/-- A table that resolves its names when they are needed. -/
structure LazyTable where
  cells : List LazyCell
  /-- the names that it has -/
  known : NameSet
  resolver : Resolver

namespace LazyCell

/-- The cell after its resolution; a cell that was resolved before stays as it is. -/
def resolve (c : LazyCell) (resolver : Resolver) : LazyCell :=
  match c.resolved with
  | some _ => c
  | none => { c with resolved := some (resolver c.name) }

/-- The provider of a resolved cell. -/
def entry? (c : LazyCell) : Option TableEntry :=
  (c.resolved.getD none).map fun kind => ⟨c.name, kind⟩

end LazyCell

namespace LazyTable

/-- A table of these names, of which none is resolved. -/
def ofNames (names : List String) (resolver : Resolver) : LazyTable :=
  ⟨names.map fun n => { name := n }, .ofList names, resolver⟩

/-- The lazy table of a service, which resolves its names in that table. -/
def ofSpec (t : TableSpec) : LazyTable := ofNames t.names t.kind?

/-- The table after the names that satisfy a predicate were resolved. -/
def resolveWhere (t : LazyTable) (p : String → Bool) : LazyTable :=
  { t with cells := t.cells.map fun c => if p c.name then c.resolve t.resolver else c }

/-- The names that the resolution of a predicate's names asks the resolver for, in order. -/
def unresolvedWhere (t : LazyTable) (p : String → Bool) : List String :=
  (t.cells.filter fun c => p c.name && c.resolved.isNone).map (·.name)

/-- The table after every name was resolved. -/
def preload (t : LazyTable) : LazyTable := t.resolveWhere fun _ => true

/-- The providers whose names satisfy a predicate and resolve, and the table afterwards. -/
def find (t : LazyTable) (p : String → Bool) : List TableEntry × LazyTable :=
  let t := t.resolveWhere p
  ((t.cells.filter fun c => p c.name).filterMap LazyCell.entry?, t)

/-- Whether the table has this name. -/
def contains (t : LazyTable) (name : String) : Bool := t.known.contains name

/-- The number of names that were resolved, with or without success. -/
def resolvedCount (t : LazyTable) : Nat := (t.cells.filter fun c => c.resolved.isSome).length

end LazyTable

end BuildAhead
