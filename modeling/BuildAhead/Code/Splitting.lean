import BuildAhead.Code.Basic

set_option autoImplicit false

/-!
# Code: splitting by size

A generated method must not grow without bound. `segments` cuts a list into consecutive segments
whose cost stays within a budget, greedily from the left, and `SubLoaders.ofSegments` turns segments
of statements into numbered methods and the calls that run them in order.
-/

namespace BuildAhead.Code

/-- The budget for one generated method body when none is configured. -/
def defaultMaxUnitSize : Nat := 30000

/-- The rest of the segment that holds the items in `segment`, the last one first, and costs `size`
so far, followed by the segments behind it. -/
def segmentsFrom {α : Type} (max : Nat) (cost : α → Nat) (size : Nat) (segment : List α) :
    List α → List (List α)
  | [] => [segment.reverse]
  | a :: rest =>
    if size + cost a ≤ max then segmentsFrom max cost (size + cost a) (a :: segment) rest
    else segment.reverse :: segmentsFrom max cost (cost a) [a] rest

/-- Consecutive segments of the list. An item joins the segment before it when the cost of both
together is at most `max`, and begins a new one otherwise, so an item that costs more than `max`
stands alone. -/
def segments {α : Type} (max : Nat) (cost : α → Nat) : List α → List (List α)
  | [] => []
  | a :: rest => segmentsFrom max cost (cost a) [a] rest

example : segments 20 id [5, 5, 10, 1, 30, 2] = [[5, 5, 10], [1], [30], [2]] := by
  decide +kernel

/-- Numbered methods and the calls that run them in the order of their numbers. -/
structure SubLoaders where
  calls : List Stmt
  methods : List Method
  deriving Repr, Inhabited

namespace SubLoaders

/-- The method of the segment with this number. -/
def methodOf (base : String) (params : List Param) (number : Nat) (body : List Stmt) : Method :=
  { name := base ++ toString number, isStatic := true, params, body }

/-- The call of the method with this number, which passes the parameters on. -/
def callOf (base : String) (params : List Param) (number : Nat) : Stmt :=
  .eval (.callOwn (base ++ toString number) (params.map fun p => .ident p.name))

/-- One method for each segment. -/
def ofSegments (base : String) (params : List Param) (bodies : List (List Stmt)) : SubLoaders where
  calls := bodies.zipIdx.map fun (_, i) => callOf base params i
  methods := bodies.zipIdx.map fun (body, i) => methodOf base params i body

/-- The number of methods. -/
def size (s : SubLoaders) : Nat := s.methods.length

/-- Whether there is no method. -/
def isEmpty (s : SubLoaders) : Bool := s.methods.isEmpty

end SubLoaders

end BuildAhead.Code
