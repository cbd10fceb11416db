import BuildAhead.Modules.Basic

set_option autoImplicit false

/-!
# Optimizations: known types

Two modules that answer at build time what an application would ask of its class path: which types
are missing, and which reactive types there are.
-/

namespace BuildAhead.KnownTypes

def missingKey : String := "known.missing.types.list"
def missingLoaderName : String := "KnownMissingTypesOptimizationLoader"

/-- Makes a set of the missing types. -/
def missingBody (missing : List String) : LoaderBody where
  statements :=
    .bind "knownMissingTypes" (.construct "HashSet" []) ::
      missing.map (fun t => .eval (.callOn (.ident "knownMissingTypes") "add" [.text t])) ++
      [.ret (.construct Runtime.knownMissingTypes [.ident "knownMissingTypes"])]

/-- The module that records which of the configured types are missing. -/
def missing : Module where
  descriptor :=
    { id := "known.missing.types"
      description := "Checks of existence of some types at build time instead of runtime"
      options :=
        [⟨missingKey,
          "A list of types that the analyzer needs to check for existence (comma separated)",
          "io.reactivex.Observable,reactor.core.publisher.Flux,kotlinx.coroutines.flow.Flow"⟩] }
  generate := do
    let c ← get
    let absent := (c.settings.items missingKey).filter fun t => !c.application.hasType t
    let _ ← Generation.registerStaticOptimization missingLoaderName Runtime.knownMissingTypes
      (missingBody absent)

def reactiveLoaderName : String := "PublishersOptimizationsLoader"

/-- The name of a type in code: a dot leads to a nested type. -/
def codeName (type : String) : String :=
  String.ofList (type.toList.map fun c => if c = '$' then '.' else c)

/-- A list of types as an expression. -/
def typeList (types : List String) : Code.Expr := .list (types.map fun t => .typeRef (codeName t))

/-- Makes the record of the reactive types. -/
def reactiveBody (types : ReactiveTypes) : LoaderBody where
  statements :=
    [.ret (.construct Runtime.publishers
      [typeList types.reactive, typeList types.single, typeList types.completable])]

/-- The module that records the reactive types. -/
def reactive : Module where
  descriptor :=
    { id := "scan.reactive.types"
      description := "Scans reactive types at build time instead of runtime" }
  generate := do
    let c ← get
    let _ ← Generation.registerStaticOptimization reactiveLoaderName Runtime.publishers
      (reactiveBody c.analyzer.snapshot.reactiveTypes)

end BuildAhead.KnownTypes
