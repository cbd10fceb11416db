import BuildAhead.Number.Binary64
import BuildAhead.Profile

set_option autoImplicit false

/-!
# Code: generated units

The code that a build generates, as data: expressions, statements, methods, fields and units. A unit
is one type of the target language; it names no concrete syntax, which a later tool supplies. The
types of the run-time library that generated code refers to are listed under `Runtime`.
-/

namespace BuildAhead

namespace Runtime

def optimizationLoader : String := "prebake.runtime.OptimizationLoader"
def applicationConfigurer : String := "prebake.runtime.ApplicationConfigurer"
def serviceTable : String := "prebake.runtime.ServiceTable"
def staticServices : String := "prebake.runtime.StaticServices"
def propertySource : String := "prebake.runtime.PropertySource"
def constantPropertySources : String := "prebake.runtime.ConstantPropertySources"
def environment : String := "prebake.runtime.Environment"
def environmentProperties : String := "prebake.runtime.EnvironmentProperties"
def knownMissingTypes : String := "prebake.runtime.KnownMissingTypes"
def publishers : String := "prebake.runtime.Publishers"
def loggingConfigurator : String := "prebake.runtime.LoggingConfigurator"
def environmentConfigurer : String := "prebake.runtime.EnvironmentConfigurer"
def contextBuilder : String := "prebake.runtime.ContextBuilder"

end Runtime

namespace Code

/-- An expression. A call without a target is a call of a method of the same unit. -/
inductive Expr where
  | null
  | bool (b : Bool)
  | int (n : Int)
  | double (x : Binary64)
  | text (s : String)
  /-- the type itself, as a value or as the target of a static call -/
  | typeRef (name : String)
  /-- a local variable or a parameter -/
  | ident (name : String)
  | call (target : Option Expr) (method : String) (args : List Expr)
  | construct (typeName : String) (args : List Expr)
  /-- a method or constructor as a value -/
  | methodRef (typeName : String) (method : String)
  | list (items : List Expr)
  | map (entries : List (Expr × Expr))
  deriving Repr, Inhabited

namespace Expr

/-- A call of a method of the same unit. -/
def callOwn (method : String) (args : List Expr) : Expr := .call none method args

/-- A call of a method of an object. -/
def callOn (target : Expr) (method : String) (args : List Expr) : Expr :=
  .call (some target) method args

/-- A call of a static method of a type. -/
def callStatic (typeName method : String) (args : List Expr) : Expr :=
  callOn (.typeRef typeName) method args

end Expr

/-- A statement. -/
inductive Stmt where
  | eval (e : Expr)
  | bind (name : String) (value : Expr)
  | ret (value : Expr)
  | cond (condition : Expr) (body : List Stmt)
  deriving Repr, Inhabited

/-- A parameter of a method. -/
structure Param where
  name : String
  typeName : String
  deriving DecidableEq, Repr, Inhabited

/-- A method. A method without a result type returns nothing. -/
structure Method where
  name : String
  isStatic : Bool := false
  params : List Param := []
  returns : Option String := none
  body : List Stmt := []
  deriving Repr, Inhabited

/-- A field. -/
structure Field where
  name : String
  typeName : String
  isStatic : Bool := false
  initializer : Option Expr := none
  deriving Repr, Inhabited

/-- The name of a generated unit. -/
structure UnitName where
  space : String
  name : String
  deriving DecidableEq, Repr, Inhabited

/-- The name with its namespace. -/
def UnitName.qualified (n : UnitName) : String := Names.qualify n.space n.name

end Code

/-- A generated unit: one type, with the statements that run when it is first used. -/
structure CodeUnit where
  space : String
  name : String
  implements : List String := []
  fields : List Code.Field := []
  methods : List Code.Method := []
  staticInit : List Code.Stmt := []
  deriving Repr, Inhabited

namespace CodeUnit

/-- The name of the unit with its namespace. -/
def qualifiedName (u : CodeUnit) : String := Names.qualify u.space u.name

/-- The name of the unit, its two parts kept apart. -/
def unitName (u : CodeUnit) : Code.UnitName := ⟨u.space, u.name⟩

/-- The first method of this name. -/
def method? (u : CodeUnit) (name : String) : Option Code.Method :=
  u.methods.find? (·.name == name)

end CodeUnit

end BuildAhead
