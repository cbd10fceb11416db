import BuildAhead.Code.Basic
import BuildAhead.Json.Basic

set_option autoImplicit false

/-!
# Code: literals

Expressions that build a JSON value when they are run. A map at the top is written in place; every
list and map inside it becomes the result of a helper method, `list0`, `list1`, … and `map0`,
`map1`, …, so that no expression grows without bound. The numbers are given in the order in which
the lists and maps begin, and a helper is recorded when its own value is complete, behind the
helpers for what it holds.
-/

namespace BuildAhead.Code

/-- The helpers recorded so far and the numbers for the next ones. -/
structure Literals where
  helpers : List Method := []
  nextList : Nat := 0
  nextMap : Nat := 0
  deriving Repr, Inhabited

namespace Literals

/-- The number of a double that an integer outside the signed range becomes. -/
def doubleOfInt (n : Int) : Binary64 :=
  let x := Binary64.ofNat n.natAbs
  if n < 0 then x.neg else x

/-- A helper that returns one expression. -/
def helper (name result : String) (value : Expr) : Method :=
  { name, isStatic := true, returns := some result, body := [.ret value] }

/-- Records a helper. -/
def record (g : Literals) (m : Method) : Literals := { g with helpers := g.helpers ++ [m] }

mutual

/-- The expression of a value whose objects are in canonical form. -/
def valueOf (g : Literals) : Json → Expr × Literals
  | .null => (.null, g)
  | .bool b => (.bool b, g)
  | .int n => (if Json.inInt64 n then .int n else .double (doubleOfInt n), g)
  | .double x => (.double x, g)
  | .text s => (.text s, g)
  | .array items =>
    let name := "list" ++ toString g.nextList
    let (es, g) := itemsOf { g with nextList := g.nextList + 1 } items
    (.callOwn name [], g.record (helper name "List" (.list es)))
  | .object members =>
    let name := "map" ++ toString g.nextMap
    let (es, g) := membersOf { g with nextMap := g.nextMap + 1 } members
    (.callOwn name [], g.record (helper name "Map" (.map es)))

/-- The expressions of the items of a list. -/
def itemsOf (g : Literals) : List Json → List Expr × Literals
  | [] => ([], g)
  | v :: rest =>
    let (e, g) := valueOf g v
    let (es, g) := itemsOf g rest
    (e :: es, g)

/-- The entries of a map. -/
def membersOf (g : Literals) : List (String × Json) → List (Expr × Expr) × Literals
  | [] => ([], g)
  | (k, v) :: rest =>
    let (e, g) := valueOf g v
    let (es, g) := membersOf g rest
    ((.text k, e) :: es, g)

end

/-- The expression of a value. -/
def value (g : Literals) (v : Json) : Expr × Literals := g.valueOf v.canonical

/-- The expression of a map, written in place, with its keys in ascending order. -/
def map (g : Literals) (members : List (String × Json)) : Expr × Literals :=
  let (es, g) := g.membersOf (Json.canonicalMembers members [])
  (.map es, g)

end Literals

end BuildAhead.Code
