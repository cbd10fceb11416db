import BuildAhead.Code.Splitting
import BuildAhead.Settings.Basic

set_option autoImplicit false

/-!
# Services: settings of the discovery

Which services are scanned, which candidates are refused or included whatever their requirements
say, and how large a generated table may grow.
-/

namespace BuildAhead

/-- The settings of a service discovery. -/
structure DiscoverySettings where
  serviceTypes : List String := []
  rejected : NameSet := ∅
  forceInclude : NameSet := ∅
  possibleEnvironments : List String := []
  maxUnitSize : Nat := Code.defaultMaxUnitSize
  deriving DecidableEq, Repr, Inhabited

namespace DiscoverySettings

def serviceTypesKey : String := "service.types"
def rejectedKey : String := "serviceloading.rejected.impls"
def forceIncludeKey : String := "serviceloading.force.include.impls"
def possibleEnvironmentsKey : String := "possible.environments"
def maxUnitSizeKey : String := "serviceloading.max.unit.size"

/-- Reads the settings; the maximal size must be a positive integer. -/
def ofSettings (s : Settings) : Except BuildError DiscoverySettings := do
  let size ← s.int maxUnitSizeKey Code.defaultMaxUnitSize
  if size ≤ 0 then
    throw (.configuration
      (maxUnitSizeKey ++ " must be a positive integer, got " ++ toString size))
  return {
    serviceTypes := s.items serviceTypesKey
    rejected := .ofList (s.items rejectedKey)
    forceInclude := .ofList (s.items forceIncludeKey)
    possibleEnvironments := s.items possibleEnvironmentsKey
    maxUnitSize := size.toNat }

end DiscoverySettings

end BuildAhead
