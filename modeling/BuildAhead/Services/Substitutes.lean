import BuildAhead.Code.Encoding
import BuildAhead.Collection.Dict
import BuildAhead.Number.Sum

set_option autoImplicit false

/-!
# Services: substitutes

Units that were generated in place of discovered candidates, under the capability for which the
candidate was discovered.
-/

namespace BuildAhead

/-- The substitute units of each capability. -/
structure Substitutes where
  entries : Dict (List CodeUnit) := ∅
  deriving Repr, Inhabited

namespace Substitutes

/-- The substitutes with further units for a capability. -/
def add (s : Substitutes) (capability : String) (units : List CodeUnit) : Substitutes :=
  ⟨s.entries.alter capability fun old => old.getD [] ++ units⟩

/-- The units of a capability. -/
def get (s : Substitutes) (capability : String) : List CodeUnit :=
  (s.entries.get? capability).getD []

/-- The capabilities that have an entry, in ascending order. -/
def capabilities (s : Substitutes) : List String := s.entries.keys

/-- Whether no capability has an entry. -/
def isEmpty (s : Substitutes) : Bool := s.entries.isEmpty

/-- The number of units. -/
def size (s : Substitutes) : Nat := sumOf (s.entries.values.map List.length)

/-- The substitutes as a JSON value. -/
def toJson (s : Substitutes) : Json :=
  .object
    [("entries",
      .object (s.entries.toList.map fun e => (e.1, .array (e.2.map CodeUnit.toJson))))]

end Substitutes

end BuildAhead
