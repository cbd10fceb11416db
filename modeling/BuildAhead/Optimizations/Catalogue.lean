import BuildAhead.Modules.Registry
import BuildAhead.Optimizations.Environment
import BuildAhead.Optimizations.KnownTypes
import BuildAhead.Optimizations.LoggerLevels
import BuildAhead.Optimizations.NativeImage
import BuildAhead.Optimizations.VariableNames

set_option autoImplicit false

/-!
# Optimizations: catalogue

The modules that every build has at its disposal.
-/

namespace BuildAhead

/-- Every module of the catalogue. -/
def standardModules : List Module :=
  [ServiceLoading.module .jit, ServiceLoading.module .native, PropertySources.sealed,
    Environment.caching, VariableNames.module, Environment.deducing, KnownTypes.missing,
    KnownTypes.reactive, NativeImage.module, LoggerLevels.module]

/-- The registry of the catalogue. -/
def Registry.standard : Registry := .ofModules standardModules

end BuildAhead
