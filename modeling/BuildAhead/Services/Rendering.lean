import BuildAhead.Services.Table

set_option autoImplicit false

/-!
# Services: rendering of tables

The unit that holds the table of a service in the generated application. Its static block fills the
map `ENTRIES` through sub-loaders. For the just-in-time runtime the map holds the names alone, which
are loaded in parallel afterwards; for the native image it binds each name to its provider.
-/

namespace BuildAhead

namespace TableSpec

/-- The field that holds the entries. -/
def entriesField : String := "ENTRIES"

/-- The value that the generated map has for an entry. -/
def entryValue (profile : Profile) (e : TableEntry) : Code.Expr :=
  match profile, e.implementation with
  | .jit, _ => .null
  | .native, .factoryMethod => .methodRef e.name "provider"
  | .native, .noArgConstructor => .methodRef e.name "new"

/-- The statement that enters an entry. -/
def putEntry (profile : Profile) (e : TableEntry) : Code.Stmt :=
  .eval (.callOn (.ident entriesField) "put" [.text e.name, entryValue profile e])

/-- The method of the run-time library that answers queries of the table. -/
def queryMethod : Profile → String
  | .jit => "findLazy"
  | .native => "findStatic"

/-- The method that answers queries. -/
def findAll (profile : Profile) : Code.Method where
  name := "findAll"
  params := [⟨"predicate", "Predicate<String>"⟩]
  returns := some "Stream"
  body :=
    [.ret (.callStatic Runtime.serviceTable (queryMethod profile)
      [.ident entriesField, .ident "predicate"])]

/-- What the static block does behind the calls of the sub-loaders. -/
def afterLoading : Profile → List Code.Stmt
  | .jit => [.eval (.callStatic Runtime.serviceTable "preloadParallel" [.ident entriesField])]
  | .native => []

/-- The sub-loaders that fill the map. -/
def loaders (t : TableSpec) (profile : Profile) (maxUnitSize : Nat) : Code.SubLoaders :=
  .ofSegments "load" [] ((t.segments maxUnitSize).map fun s => s.map (putEntry profile))

/-- The unit that holds the table. -/
def render (t : TableSpec) (profile : Profile) (space : String) (maxUnitSize : Nat) : CodeUnit :=
  let loaders := t.loaders profile maxUnitSize
  { space
    name := t.factoryName
    implements := [Runtime.serviceTable ++ "<" ++ t.capability ++ ">"]
    fields :=
      [{ name := entriesField
         typeName := "Map"
         isStatic := true
         initializer := some (.construct "LinkedHashMap" []) }]
    methods := loaders.methods ++ [findAll profile]
    staticInit := loaders.calls ++ afterLoading profile }

end TableSpec

end BuildAhead
