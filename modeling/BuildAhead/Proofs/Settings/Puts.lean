import BuildAhead.Settings.Loading

set_option autoImplicit false

/-!
# Settings: sources as puts

What a layer of settings asks for, taken apart: a put is one change at one path of names. A table at
a path asks to make sure of a table there and then for the puts of each value of the table. Where a
key leads is a matter of how keys are compared. For the standard comparison, entering a layer into a
tree is the same as carrying out its puts one after the other, so a whole load is one row of puts.
-/

namespace BuildAhead

namespace ConfigTree

/-- The tree in which `f` has decided what is at a path, from what was there. -/
def write (f : Option ConfigTree → ConfigTree) : List String → Option ConfigTree → ConfigTree
  | [], old => f old
  | name :: path, old => .table (alter name (write f path) (old.getD .absent).entriesOf)

end ConfigTree

/-- What is done at the end of a path. -/
inductive Change where
  /-- makes sure that something is there, a table if nothing else -/
  | table
  /-- takes away what is there -/
  | clear
  | scalar (text : String)
  | list (items : List ConfigTree)
  /-- sets the item of a list, or what steps below it lead to -/
  | item (index : Int) (steps : List KeyStep) (value : ConfigTree)

namespace Change

open ConfigTree

/-- What a change leaves, from what was there. -/
def result : Change → Option ConfigTree → ConfigTree
  | .table, old => old.getD (.table [])
  | .clear, _ => .absent
  | .scalar text, _ => .scalar text
  | .list items, _ => .list items
  | .item index steps value, old => setSteps value (.position index :: steps) old

/-- The value that a change gives as a whole. -/
def given? : Change → Option ConfigTree
  | .scalar text => some (.scalar text)
  | .list items => some (.list items)
  | _ => none

/-- Whether a change gives a value or a part of it. -/
def fills : Change → Bool
  | .scalar _ | .list _ | .item _ _ _ => true
  | .table | .clear => false

instance (c : Change) : Decidable (c = .table) :=
  match c with
  | .table => .isTrue rfl
  | .clear => .isFalse nofun
  | .scalar _ => .isFalse nofun
  | .list _ => .isFalse nofun
  | .item _ _ _ => .isFalse nofun

theorem fills_of_given? {c : Change} (hgiven : c.given?.isSome = true) : c.fills = true := by
  cases c with
  | scalar text => rfl
  | list items => rfl
  | table => cases hgiven
  | clear => cases hgiven
  | item index steps value => cases hgiven

end Change

/-- How keys are compared. -/
structure KeyComparison where
  /-- where the key of an entry leads -/
  path : String → KeyPath
  /-- the form in which a name is kept -/
  kept : String → String

/-- A key is a path if it can be read as one, and a name otherwise; names are kept in lower case. -/
def KeyComparison.standard : KeyComparison where
  path key := (KeyPath.parse? key).getD ⟨key, []⟩
  kept := Text.lower

/-- A change, the dotted key that asks for it, as it is written, and the path of its place, with the
names in the form in which they are kept. -/
structure Put where
  key : String
  path : List String
  change : Change

namespace Put

open ConfigTree

/-- What a put makes of a tree. -/
def apply (p : Put) (old : Option ConfigTree) : ConfigTree := write p.change.result p.path old

/-- What a row of puts makes of a tree. -/
def applyAll (puts : List Put) (old : Option ConfigTree) : Option ConfigTree :=
  puts.foldl (fun tree p => some (p.apply tree)) old

section Comparison

variable (c : KeyComparison)

mutual

/-- The puts of a value under a key. -/
def ofTree (key : String) (path : List String) : ConfigTree → List Put
  | .table entries => ⟨key, path, .table⟩ :: ofEntries key path entries
  | .absent => [⟨key, path, .clear⟩]
  | .scalar text => [⟨key, path, .scalar text⟩]
  | .list items => [⟨key, path, .list items⟩]

/-- The puts of each entry under a key. -/
def ofEntries (key : String) (path : List String) : List (String × ConfigTree) → List Put
  | [] => []
  | (name, value) :: rest =>
    ofTree (key ++ "." ++ name) (path ++ [c.kept name]) value ++ ofEntries key path rest

end

/-- The puts of a value at steps below a path. -/
def ofSteps (key : String) (path : List String) (value : ConfigTree) : List KeyStep → List Put
  | [] => ofTree c key path value
  | .name name :: steps => ofSteps key (path ++ [c.kept name]) value steps
  | .position index :: steps => [⟨key, path, .item index steps value⟩]

/-- The puts of one entry of a layer. -/
def ofEntry (entry : String × ConfigTree) : List Put :=
  let path := c.path entry.1
  ofSteps c entry.1 [c.kept path.first] entry.2 path.steps

/-- The puts of a layer. -/
def ofLayer (entries : List (String × ConfigTree)) : List Put := entries.flatMap (ofEntry c)

end Comparison

end Put

/-! ## Writing at a path -/

namespace ConfigTree

/-- Two decisions about one name are one. -/
theorem alter_alter (key : String) (f g : Option ConfigTree → ConfigTree)
    (entries : List (String × ConfigTree)) :
    alter key g (alter key f entries) = alter key (fun old => g (some (f old))) entries := by
  induction entries with
  | nil => simp [alter]
  | cons entry rest ih =>
    obtain ⟨k, v⟩ := entry
    by_cases hk : k = key
    · simp [alter, hk]
    · simp [alter, hk, ih]

/-- A name below a path is written by writing the table at the path. -/
theorem write_concat (f : Option ConfigTree → ConfigTree) (path : List String) (name : String)
    (old : Option ConfigTree) :
    write f (path ++ [name]) old =
      write (fun old => .table (alter name f (old.getD .absent).entriesOf)) path old := by
  induction path generalizing old with
  | nil => rfl
  | cons first path ih =>
    have hbelow : write f (path ++ [name]) =
        write (fun old => .table (alter name f (old.getD .absent).entriesOf)) path := funext ih
    simp only [List.cons_append, write, hbelow]

/-- Of two decisions about one path, the second is made from what the first one left. -/
theorem write_write (f g : Option ConfigTree → ConfigTree) (path : List String)
    (old : Option ConfigTree) :
    write g path (some (write f path old)) = write (fun old => g (some (f old))) path old := by
  induction path generalizing old with
  | nil => rfl
  | cons name path ih =>
    have hbelow : (fun old => write g path (some (write f path old))) =
        write (fun old => g (some (f old))) path := funext ih
    simp only [write, Option.getD_some, entriesOf, alter_alter, hbelow]

end ConfigTree

/-! ## Sources as rows of puts -/

namespace Put

open ConfigTree

theorem applyAll_append (first second : List Put) (old : Option ConfigTree) :
    applyAll (first ++ second) old = applyAll second (applyAll first old) :=
  List.foldl_append

mutual

/-- The puts of a value do what merging it does. -/
theorem applyAll_ofTree : ∀ (value : ConfigTree) (key : String) (path : List String)
    (old : Option ConfigTree),
    applyAll (ofTree .standard key path value) old =
      some (write (fun old => merge old value) path old)
  | .absent, _, _, _ => rfl
  | .scalar _, _, _, _ => rfl
  | .list _, _, _, _ => rfl
  | .table entries, key, path, old => by
    -- the change of the table itself decides nothing that the entries do not go on from
    have hentries := applyAll_ofEntries entries key path (Change.result .table) old
    exact hentries

theorem applyAll_ofEntries : ∀ (entries : List (String × ConfigTree)) (key : String)
    (path : List String) (f : Option ConfigTree → ConfigTree) (old : Option ConfigTree),
    applyAll (ofEntries .standard key path entries) (some (write f path old)) =
      some (write (fun old => mergeEntries (f old) entries) path old)
  | [], _, _, _, _ => rfl
  | (name, value) :: rest, key, path, f, old => by
    rw [ofEntries, applyAll_append, applyAll_ofTree value, write_concat, write_write]
    let g (old : Option ConfigTree) : ConfigTree :=
      .table (alter (Text.lower name) (fun old => merge old value) (f old).entriesOf)
    exact applyAll_ofEntries rest key path g old

end

/-- The puts at steps do what setting them does. -/
theorem applyAll_ofSteps (value : ConfigTree) (steps : List KeyStep) (key : String)
    (path : List String) (old : Option ConfigTree) :
    applyAll (ofSteps .standard key path value steps) old =
      some (write (setSteps value steps) path old) := by
  induction steps generalizing path with
  | nil => exact applyAll_ofTree value key path old
  | cons step steps ih =>
    cases step with
    | name name =>
      rw [ofSteps, ih, write_concat]
      rfl
    | position index => rfl

/-- A layer is entered by its puts. -/
theorem applyAll_ofLayer (entries : List (String × ConfigTree)) (tree : ConfigTree) :
    applyAll (ofLayer .standard entries) (some tree) = some (tree.addSource entries) := by
  induction entries generalizing tree with
  | nil => rfl
  | cons entry rest ih =>
    have hentry : applyAll (ofEntry .standard entry) (some tree) =
        some (tree.set ((KeyPath.parse? entry.1).getD ⟨entry.1, []⟩) entry.2) :=
      applyAll_ofSteps _ _ _ _ _
    rw [ofLayer, List.flatMap_cons, applyAll_append, hentry]
    exact ih _

theorem ofLayer_flatten (c : KeyComparison) (layers : List (List (String × ConfigTree))) :
    ofLayer c layers.flatten = (layers.map (ofLayer c)).flatten := by
  induction layers with
  | nil => rfl
  | cons layer rest ih =>
    rw [List.map_cons, List.flatten_cons, List.flatten_cons, ← ih]
    exact List.flatMap_append

end Put

end BuildAhead
