import BuildAhead.Code.Basic

set_option autoImplicit false

/-!
# Code: the types that code uses

Every type that a unit names: what it implements, the types of its fields and methods, and what its
code makes, calls or refers to, wherever in an expression that stands.
-/

namespace BuildAhead

namespace Code

namespace Expr

mutual

/-- The types in an expression, in order. -/
def typesUsed : Expr → List String
  | .typeRef name => [name]
  | .call target _ args => typesOfTarget target ++ typesOfAll args
  | .construct typeName args => typeName :: typesOfAll args
  | .methodRef typeName _ => [typeName]
  | .list items => typesOfAll items
  | .map entries => typesOfEntries entries
  | _ => []

def typesOfTarget : Option Expr → List String
  | none => []
  | some e => typesUsed e

def typesOfAll : List Expr → List String
  | [] => []
  | e :: rest => typesUsed e ++ typesOfAll rest

def typesOfEntries : List (Expr × Expr) → List String
  | [] => []
  | (k, v) :: rest => typesUsed k ++ typesUsed v ++ typesOfEntries rest

end

end Expr

namespace Stmt

mutual

/-- The types in a statement, in order. -/
def typesUsed : Stmt → List String
  | .eval e => e.typesUsed
  | .bind _ value => value.typesUsed
  | .ret value => value.typesUsed
  | .cond condition body => condition.typesUsed ++ typesOfAll body

def typesOfAll : List Stmt → List String
  | [] => []
  | s :: rest => typesUsed s ++ typesOfAll rest

end

theorem typesOfAll_append (first second : List Stmt) :
    typesOfAll (first ++ second) = typesOfAll first ++ typesOfAll second := by
  induction first with
  | nil => rfl
  | cons s rest ih => rw [List.cons_append, typesOfAll, typesOfAll, ih, List.append_assoc]

/-- Statements that each use one type. -/
theorem typesOfAll_map {α : Type} {f : α → Stmt} {type : α → String} {as : List α}
    (h : ∀ a, (f a).typesUsed = [type a]) : typesOfAll (as.map f) = as.map type := by
  induction as with
  | nil => rfl
  | cons a rest ih => rw [List.map_cons, typesOfAll, h, ih, List.map_cons, List.singleton_append]

end Stmt

end Code

namespace CodeUnit

/-- The types that a method names. -/
def typesOfMethod (m : Code.Method) : List String :=
  m.params.map Code.Param.typeName ++ m.returns.toList ++ Code.Stmt.typesOfAll m.body

/-- The types that a unit names. -/
def typesUsed (u : CodeUnit) : List String :=
  u.implements ++
    u.fields.flatMap (fun f => f.typeName :: Code.Expr.typesOfTarget f.initializer) ++
    u.methods.flatMap typesOfMethod ++ Code.Stmt.typesOfAll u.staticInit

end CodeUnit

end BuildAhead
