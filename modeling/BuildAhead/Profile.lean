import BuildAhead.Text.Blank
import BuildAhead.Text.Case
import BuildAhead.Text.Pieces

set_option autoImplicit false

/-!
# Profiles and names

The two runtimes that a build can be prepared for, sets of them, and the names that other names are
derived from: feature switches, service manifests, simple type names and type name fragments.
-/

namespace BuildAhead

/-- The runtime that a build is prepared for: a just-in-time one, which still resolves classes when
it starts, or a native image, where everything is bound at build time. -/
inductive Profile where
  | jit
  | native
  deriving DecidableEq, Repr, Inhabited

namespace Profile

/-- Every profile, in the order in which they are listed. -/
def all : List Profile := [.jit, .native]

/-- The name of a profile in configuration files and generated properties. -/
def slug : Profile → String
  | .jit => "jit"
  | .native => "native"

/-- The profile of a name: the slugs and one further name for each. -/
def ofName? (name : String) : Option Profile :=
  if name = "jit" ∨ name = "dynamic" then some .jit
  else if name = "native" ∨ name = "aot" then some .native
  else none

/-- A profile's name as people write it, in any case and with blanks around it. -/
def normalName (text : String) : String := Text.asciiLower (Text.trim text)

/-- The profile that a text names, in any case and with blanks around it. -/
def parse? (text : String) : Option Profile := ofName? (normalName text)

/-- What is said of a text that names no profile. -/
def unknownMessage (text : String) : String :=
  "unknown runtime '" ++ normalName text ++ "' (expected 'jit' or 'native')"

end Profile

/-- A set of profiles. -/
structure ProfileSet where
  jit : Bool
  native : Bool
  deriving DecidableEq, Repr, Inhabited

namespace ProfileSet

/-- Both profiles. -/
def both : ProfileSet := ⟨true, true⟩

/-- The just-in-time runtime alone. -/
def jitOnly : ProfileSet := ⟨true, false⟩

/-- The native image alone. -/
def nativeOnly : ProfileSet := ⟨false, true⟩

/-- Whether a profile is in the set. -/
def contains (s : ProfileSet) : Profile → Bool
  | .jit => s.jit
  | .native => s.native

/-- The members, in the order of `Profile.all`. -/
def toList (s : ProfileSet) : List Profile := Profile.all.filter s.contains

end ProfileSet

namespace Names

/-- The last segment of a dotted name. -/
def simple (qualified : String) : String := Text.afterLastDot qualified

/-- A name inside a namespace; the empty namespace adds nothing. -/
def qualify (space name : String) : String :=
  if space.isEmpty then name else space ++ "." ++ name

/-- The configuration key that switches a module or feature on. -/
def switch (feature : String) : String := feature ++ ".enabled"

/-- Where the manifest with the implementations of a service lies among the resources. -/
def serviceManifest (service : String) : String := "META-INF/services/" ++ service

/-- A word with its first letter in upper case. -/
def capitalized : List Char → List Char
  | [] => []
  | c :: cs => Text.asciiUpperChar c :: cs

/-- The part of a type name that stands for a resource or a capability: its stretches of letters and
digits, each begun with a capital, put together. -/
def fragment (name : String) : String :=
  String.ofList
    ((Text.piecesOf (fun c => !Text.isAsciiAlphanumeric c) name.toList).flatMap capitalized)

example : simple "a.b.Service" = "Service" := by decide +kernel
example : fragment "application-test" = "ApplicationTest" := by decide +kernel

end Names

end BuildAhead
