import BuildAhead.Modules.Basic

set_option autoImplicit false

/-!
# Optimizations: environment

Two modules that fix at build time what an application would otherwise find out about its
environment: one has property values cached after the start, the other configures the environments
and packages that were seen when the application was analyzed.
-/

namespace BuildAhead.Environment

/-- The module that treats the environment as unchanging after the start. -/
def caching : Module where
  descriptor :=
    { id := "cached.environment"
      description :=
        "Caches environment property values: environment properties will be deemed immutable " ++
          "after application startup." }
  generate :=
    Generation.registerStaticInitializer
      { name := "enableEnvironmentCaching"
        isStatic := true
        body := [.eval (.callStatic Runtime.environment "cacheEnvironment" [])] }

/-! ## Deduced environments -/

def configurerName : String := "DeducedEnvironmentConfigurer"

/-- The order of the configurer: the last. -/
def lowestPrecedence : Int := 2147483647

/-- A list of texts as an expression. -/
def textList (texts : List String) : Code.Expr := .list (texts.map .text)

/-- A call of a method of the builder. -/
def builderCall (method : String) (arg : Code.Expr) : Code.Stmt :=
  .eval (.callOn (.ident "builder") method [arg])

/-- Configures the environments and packages of a snapshot. -/
def configure (s : Snapshot) : Code.Method where
  name := "configure"
  params := [⟨"builder", Runtime.contextBuilder⟩]
  body :=
    builderCall "deduceEnvironment" (.bool false) ::
      (if s.activeEnvironments.isEmpty then []
        else [builderCall "defaultEnvironments" (textList s.activeEnvironments.toList)]) ++
      (if s.packages.isEmpty then [] else [builderCall "packages" (textList s.packages)])

/-- The unit that configures the environment. -/
def configurer (space : String) (s : Snapshot) : CodeUnit where
  space
  name := configurerName
  implements := [Runtime.environmentConfigurer]
  methods :=
    [configure s,
      { name := "getOrder", returns := some "int", body := [.ret (.int lowestPrecedence)] }]

/-- The module that deduces the environment at build time. -/
def deducing : Module where
  descriptor :=
    { id := "deduce.environment"
      description := "Deduces the environment at build time instead of runtime" }
  generate := do
    let c ← get
    match c.analyzer.snapshot.deduceEnvironment with
    | none => return
    | some deduce =>
      Generation.publishDeducedEnvironment deduce
      if deduce then
        let _ ← Generation.registerUnit (configurer c.space c.analyzer.snapshot)
        Generation.writeServiceManifest Runtime.environmentConfigurer configurerName

end BuildAhead.Environment
