import BuildAhead.Code.Basic
import BuildAhead.Json.Basic

set_option autoImplicit false

/-!
# Code: encoding

Generated code as JSON values, the form in which units are handed to the tool that writes source
text. An alternative is an object with one member, named for the alternative; the null expression,
which holds nothing, is its name alone.
-/

namespace BuildAhead

namespace Code

/-- One alternative with what it holds. -/
def tagged (tag : String) (value : Json) : Json := .object [(tag, value)]

namespace Expr

mutual

/-- An expression as a value. -/
def toJson : Expr → Json
  | .null => .text "null"
  | .bool b => tagged "bool" (.bool b)
  | .int n => tagged "int" (.int n)
  | .double x => tagged "float" (.double x)
  | .text s => tagged "str" (.text s)
  | .typeRef name => tagged "type_ref" (.text name)
  | .ident name => tagged "ident" (.text name)
  | .call target method args =>
    tagged "call" (.object
      [("target", targetJson target), ("method", .text method), ("args", .array (listJson args))])
  | .construct typeName args =>
    tagged "new" (.object [("type_name", .text typeName), ("args", .array (listJson args))])
  | .methodRef typeName method =>
    tagged "method_ref" (.object [("type_name", .text typeName), ("method", .text method)])
  | .list items => tagged "list" (.array (listJson items))
  | .map entries => tagged "map" (.array (entriesJson entries))

/-- The target of a call, `null` without one. -/
def targetJson : Option Expr → Json
  | none => .null
  | some e => toJson e

/-- Expressions in order. -/
def listJson : List Expr → List Json
  | [] => []
  | e :: rest => toJson e :: listJson rest

/-- The entries of a map, each as a pair. -/
def entriesJson : List (Expr × Expr) → List Json
  | [] => []
  | (k, v) :: rest => .array [toJson k, toJson v] :: entriesJson rest

end

end Expr

namespace Stmt

mutual

/-- A statement as a value. -/
def toJson : Stmt → Json
  | .eval e => tagged "expr" e.toJson
  | .bind name value => tagged "let" (.object [("name", .text name), ("value", value.toJson)])
  | .ret value => tagged "return" value.toJson
  | .cond condition body =>
    tagged "if" (.object [("condition", condition.toJson), ("then", .array (bodyJson body))])

/-- Statements in order. -/
def bodyJson : List Stmt → List Json
  | [] => []
  | s :: rest => toJson s :: bodyJson rest

end

end Stmt

/-- A parameter as a value. -/
def Param.toJson (p : Param) : Json :=
  .object [("name", .text p.name), ("type_name", .text p.typeName)]

/-- A method as a value. -/
def Method.toJson (m : Method) : Json :=
  .object
    [("name", .text m.name), ("is_static", .bool m.isStatic),
      ("params", .array (m.params.map Param.toJson)), ("returns", .ofText? m.returns),
      ("body", .array (Stmt.bodyJson m.body))]

/-- A field as a value. -/
def Field.toJson (f : Field) : Json :=
  .object
    [("name", .text f.name), ("type_name", .text f.typeName), ("is_static", .bool f.isStatic),
      ("initializer", Expr.targetJson f.initializer)]

/-- A unit's name as a value. -/
def UnitName.toJson (n : UnitName) : Json :=
  .object [("namespace", .text n.space), ("name", .text n.name)]

end Code

/-- A unit as a value. -/
def CodeUnit.toJson (u : CodeUnit) : Json :=
  .object
    [("namespace", .text u.space), ("name", .text u.name), ("implements", .ofNames u.implements),
      ("fields", .array (u.fields.map Code.Field.toJson)),
      ("methods", .array (u.methods.map Code.Method.toJson)),
      ("static_init", .array (Code.Stmt.bodyJson u.staticInit))]

end BuildAhead
