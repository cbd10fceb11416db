import BuildAhead.Settings.ConfigTree
import BuildAhead.Settings.KeyPath
import BuildAhead.Text.Case

set_option autoImplicit false

/-!
# Settings: merging

Sources are entered into a tree one after the other with `set`. A table is merged into the table
that is there, entry by entry; everything else takes the place of what is there. Names are kept in
lower case.
-/

namespace BuildAhead

namespace ConfigTree

/-- The items of a list; other trees have none. -/
def itemsOf : ConfigTree → List ConfigTree
  | .list items => items
  | _ => []

/-- The entries in which `f` has decided the value of the key from the value it had. -/
def alter (key : String) (f : Option ConfigTree → ConfigTree) :
    List (String × ConfigTree) → List (String × ConfigTree)
  | [] => [(key, f none)]
  | (k, v) :: rest => if k = key then (k, f (some v)) :: rest else (k, v) :: alter key f rest

mutual

/-- The tree that results when `value` is put where `target` is. A table without entries leaves what
is there. -/
def merge (target : Option ConfigTree) : ConfigTree → ConfigTree
  | .table entries => mergeEntries (target.getD (.table [])) entries
  | .list items => .list items
  | .scalar text => .scalar text
  | .absent => .absent

/-- The tree in which entries were set, one after the other. -/
def mergeEntries (target : ConfigTree) : List (String × ConfigTree) → ConfigTree
  | [] => target
  | (k, v) :: rest =>
    mergeEntries
      (.table (alter (Text.lower k) (fun old => merge old v) target.entriesOf)) rest

end

/-- The place of a position in a list of this length. -/
def placeOf (index : Int) (length : Nat) : Nat :=
  if 0 ≤ index then index.toNat else length - index.natAbs

/-- The list in which `f` has decided the item at a place; places before it that are missing are
left without a value. -/
def alterItem (place : Nat) (f : ConfigTree → ConfigTree) (items : List ConfigTree) :
    List ConfigTree :=
  let items := items ++ List.replicate (place + 1 - items.length) .absent
  items.modify place f

/-- The tree in which steps lead to a value. What is on the way and is no table, or no list where a
position is meant, gives way. -/
def setSteps (value : ConfigTree) : List KeyStep → Option ConfigTree → ConfigTree
  | [], old => merge old value
  | .name name :: steps, old =>
    .table (alter (Text.lower name) (setSteps value steps) (old.getD .absent).entriesOf)
  | .position index :: steps, old =>
    let items := (old.getD .absent).itemsOf
    let change (v : ConfigTree) := if steps.isEmpty then value else setSteps value steps (some v)
    .list (alterItem (placeOf index items.length) change items)

/-- The tree in which a path leads to a value. -/
def set (tree : ConfigTree) (path : KeyPath) (value : ConfigTree) : ConfigTree :=
  setSteps value (.name path.first :: path.steps) (some tree)

/-- The tree with the entries of a source. A key is a path if it can be read as one, and a name
otherwise. -/
def addSource (tree : ConfigTree) (entries : List (String × ConfigTree)) : ConfigTree :=
  entries.foldl (fun t (k, v) => t.set ((KeyPath.parse? k).getD ⟨k, []⟩) v) tree

end ConfigTree

end BuildAhead
