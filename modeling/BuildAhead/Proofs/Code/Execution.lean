import BuildAhead.Code.Basic
import BuildAhead.Collection.Dict

set_option autoImplicit false

/-!
# Code: execution

What a generated unit does when it is run. A call without a target runs the unit's first method of
that name. The code of all other types is unknown here: a call of one of their methods is noted, with
the values that it is given, and its answer is a value that stands for itself. So an object is known
by what is done with it, and a run is known by its trace.

`CodeUnit.firstUse` is what happens when a unit is first used, and `CodeUnit.invoke` calls one of
its methods. Both take the number of the unit's own calls that may be open at the same time; a run
that needs more of them, or that reads an unknown name, has no outcome.
-/

namespace BuildAhead

namespace Code

/-! ## Values and traces -/

/-- What an expression evaluates to. -/
inductive Value where
  | null
  | bool (b : Bool)
  | int (n : Int)
  | double (x : Binary64)
  | text (s : String)
  | typeRef (name : String)
  | methodRef (typeName : String) (method : String)
  | list (items : List Value)
  | map (entries : List (Value × Value))
  /-- an object that the run has made, told apart from the others by its number -/
  | object (number : Nat) (typeName : String) (args : List Value)
  /-- what a method of another type has answered -/
  | answer (target : Value) (method : String) (args : List Value)
  deriving Repr, Inhabited

/-- A call that was made while code ran. -/
inductive Event where
  /-- a call of a method of the unit itself -/
  | own (method : String) (args : List Value)
  /-- a call of a method of an object or of another type -/
  | outside (target : Value) (method : String) (args : List Value)
  deriving Repr, Inhabited

/-- The method that a call names. -/
def Event.method : Event → String
  | .own method _ => method
  | .outside _ method _ => method

/-- What a run has done so far: how many objects it has made, and its calls in order. -/
structure Trace where
  objects : Nat := 0
  events : List Event := []
  deriving Repr, Inhabited

namespace Trace

/-- The trace with further calls. -/
def add (t : Trace) (events : List Event) : Trace := { t with events := t.events ++ events }

@[simp] theorem add_nil (t : Trace) : t.add [] = t := by
  simp [add]

@[simp] theorem add_add (t : Trace) (first second : List Event) :
    (t.add first).add second = t.add (first ++ second) := by
  simp [add]

/-- A call of a method of the object with this number: the method and what it was given. -/
def callOn? (number : Nat) : Event → Option (String × List Value)
  | .outside (.object n _ _) method args => if n = number then some (method, args) else none
  | _ => none

/-- A call of a method of the unit itself: the method and what it was given. -/
def ownCall? : Event → Option (String × List Value)
  | .own method args => some (method, args)
  | .outside _ _ _ => none

/-- All calls of the unit's own methods, in order. -/
def ownCalls (t : Trace) : List (String × List Value) := t.events.filterMap ownCall?

/-- All calls of methods of the object with this number, in order. -/
def callsOn (t : Trace) (number : Nat) : List (String × List Value) :=
  t.events.filterMap (callOn? number)

/-- The object with this number is a map into which these entries were put, one after the other, and
no other of its methods was called. -/
def Fills (t : Trace) (number : Nat) (entries : List (String × Value)) : Prop :=
  t.callsOn number = entries.map fun e => ("put", [.text e.1, e.2])

end Trace

/-- A run of code. It has no outcome where the code makes no sense. -/
abbrev Exec (α : Type) : Type := StateT Trace Option α

/-- The names that code can read, the innermost first, with their values. -/
abbrev Scope : Type := List (String × Value)

namespace Exec

/-- Notes a call. -/
def note (e : Event) : Exec Unit := modify fun t => t.add [e]

/-- Makes an object. -/
def make (typeName : String) (args : List Value) : Exec Value := do
  let number := (← get).objects
  modify fun t => { t with objects := t.objects + 1 }
  return .object number typeName args

/-- The value of a name. -/
def read (scope : Scope) (name : String) : Exec Value :=
  match Dict.lookup name scope with
  | some value => return value
  | none => failure

end Exec

/-! ## Expressions and statements -/

section

variable (own : String → List Value → Exec Value)

mutual

/-- The value of an expression, where `own` runs the methods of the unit. -/
def eval (scope : Scope) : Expr → Exec Value
  | .null => return .null
  | .bool b => return .bool b
  | .int n => return .int n
  | .double x => return .double x
  | .text s => return .text s
  | .typeRef name => return .typeRef name
  | .ident name => Exec.read scope name
  | .call none method args => do
    let values ← evalAll scope args
    own method values
  | .call (some target) method args => do
    let object ← eval scope target
    let values ← evalAll scope args
    Exec.note (.outside object method values)
    return .answer object method values
  | .construct typeName args => do
    let values ← evalAll scope args
    Exec.make typeName values
  | .methodRef typeName method => return .methodRef typeName method
  | .list items => do
    let values ← evalAll scope items
    return .list values
  | .map entries => do
    let values ← evalEntries scope entries
    return .map values

/-- The values of expressions, from left to right. -/
def evalAll (scope : Scope) : List Expr → Exec (List Value)
  | [] => return []
  | e :: rest => do
    let value ← eval scope e
    let values ← evalAll scope rest
    return value :: values

/-- The entries of a map, each key before its value. -/
def evalEntries (scope : Scope) : List (Expr × Expr) → Exec (List (Value × Value))
  | [] => return []
  | (k, v) :: rest => do
    let key ← eval scope k
    let value ← eval scope v
    let values ← evalEntries scope rest
    return (key, value) :: values

end

mutual

/-- Runs a statement. Answers what it returns, if it is one that returns, and the names that the
statements behind it can read. -/
def perform (scope : Scope) : Stmt → Exec (Option Value × Scope)
  | .eval e => do
    let _ ← eval own scope e
    return (none, scope)
  | .bind name e => do
    let value ← eval own scope e
    return (none, (name, value) :: scope)
  | .ret e => do
    let value ← eval own scope e
    return (some value, scope)
  | .cond condition body => do
    match ← eval own scope condition with
    | .bool true => return (← performAll scope body, scope)
    | .bool false => return (none, scope)
    | _ => failure

/-- Runs statements in order, until one returns. -/
def performAll (scope : Scope) : List Stmt → Exec (Option Value)
  | [] => return none
  | s :: rest => do
    match ← perform scope s with
    | (some value, _) => return some value
    | (none, scope) => performAll scope rest

end

end

end Code

/-! ## Units -/

namespace CodeUnit

open Code

/-- Calls the first method of this name. What a method without a result answers is never read. -/
def call (u : CodeUnit) (fields : Scope) : Nat → String → List Value → Exec Value
  | 0, _, _ => failure
  | depth + 1, name, args =>
    match u.method? name with
    | none => failure
    | some m =>
      if m.params.length = args.length then do
        Exec.note (.own name args)
        let scope := (m.params.map (·.name)).zip args ++ fields
        let result ← performAll (u.call fields depth) scope m.body
        return result.getD .null
      else failure

/-- Gives the static fields their first values, in order. -/
def initFields (u : CodeUnit) (depth : Nat) (fields : Scope) : List Field → Exec Scope
  | [] => return fields
  | f :: rest =>
    if f.isStatic then
      match f.initializer with
      | some e => do
        let value ← eval (u.call fields depth) fields e
        u.initFields depth ((f.name, value) :: fields) rest
      | none => u.initFields depth ((f.name, .null) :: fields) rest
    else u.initFields depth fields rest

/-- What happens when the unit is first used. Answers its static fields. -/
def firstUse (u : CodeUnit) (depth : Nat) : Exec Scope := do
  let fields ← u.initFields depth [] u.fields
  let _ ← performAll (u.call fields depth) fields u.staticInit
  return fields

/-- Calls a method of the unit when it is first used. -/
def invoke (u : CodeUnit) (depth : Nat) (name : String) (args : List Value) : Exec Value := do
  let fields ← u.firstUse depth
  u.call fields depth name args

end CodeUnit

/-! ## Runs that make no object -/

namespace Code

namespace Exec

variable {α β : Type}

/-- Whatever was done before, a run answers this, makes no object, and makes these calls. -/
def Answers (x : Exec α) (a : α) (events : List Event) : Prop :=
  ∀ t : Trace, x.run t = some (a, t.add events)

theorem answers_pure (a : α) : Answers (pure a) a [] := by
  intro t
  rw [Trace.add_nil]
  rfl

theorem run_bind_of_eq {x : Exec α} {f : α → Exec β} {t t' : Trace} {a : α}
    (hx : x.run t = some (a, t')) : (x >>= f).run t = (f a).run t' := by
  rw [StateT.run_bind, hx]
  rfl

theorem Answers.bind {x : Exec α} {f : α → Exec β} {a : α} {b : β} {first second : List Event}
    (hx : Answers x a first) (hf : Answers (f a) b second) :
    Answers (x >>= f) b (first ++ second) := by
  intro t
  rw [run_bind_of_eq (hx t), hf, Trace.add_add]

theorem Answers.map {x : Exec α} {a : α} {events : List Event} (hx : Answers x a events)
    (f : α → β) : Answers (x >>= fun a => pure (f a)) (f a) events := by
  intro t
  rw [run_bind_of_eq (hx t)]
  rfl

theorem answers_note (e : Event) : Answers (note e) () [e] := by
  intro t
  rfl

theorem answers_read {scope : Scope} {name : String} {value : Value}
    (hlookup : Dict.lookup name scope = some value) : Answers (read scope name) value [] := by
  unfold read
  rw [hlookup]
  exact answers_pure value

end Exec

open Exec

section

variable {own : String → List Value → Exec Value} {scope : Scope}

theorem answers_eval_null : Answers (eval own scope .null) .null [] :=
  answers_pure _

theorem answers_eval_bool (b : Bool) : Answers (eval own scope (.bool b)) (.bool b) [] :=
  answers_pure _

theorem answers_eval_text (s : String) : Answers (eval own scope (.text s)) (.text s) [] :=
  answers_pure _

theorem answers_eval_typeRef (name : String) :
    Answers (eval own scope (.typeRef name)) (.typeRef name) [] :=
  answers_pure _

theorem answers_eval_methodRef (typeName method : String) :
    Answers (eval own scope (.methodRef typeName method)) (.methodRef typeName method) [] :=
  answers_pure _

theorem answers_eval_ident {name : String} {value : Value}
    (hlookup : Dict.lookup name scope = some value) :
    Answers (eval own scope (.ident name)) value [] :=
  answers_read hlookup

/-- A method of an object is called when the object and the values for it are known. -/
theorem answers_eval_callOn {target : Expr} {object : Value} {method : String} {args : List Expr}
    {values : List Value} (htarget : Answers (eval own scope target) object [])
    (hargs : Answers (evalAll own scope args) values []) :
    Answers (eval own scope (.callOn target method args)) (.answer object method values)
      [.outside object method values] := by
  unfold Expr.callOn
  exact htarget.bind (hargs.bind ((answers_note _).map _))

/-- The values that a method of an object is given can come from calls. -/
theorem answers_eval_callOn_after {target : Expr} {object : Value} {method : String}
    {args : List Expr} {values : List Value} {events : List Event}
    (htarget : Answers (eval own scope target) object [])
    (hargs : Answers (evalAll own scope args) values events) :
    Answers (eval own scope (.callOn target method args)) (.answer object method values)
      (events ++ [.outside object method values]) := by
  unfold Expr.callOn
  exact htarget.bind (hargs.bind ((answers_note _).map _))

/-- A method of the unit is called when the values for it are known. -/
theorem answers_eval_callOwn {method : String} {args : List Expr} {values : List Value}
    {value : Value} {events : List Event} (hargs : Answers (evalAll own scope args) values [])
    (hcall : Answers (own method values) value events) :
    Answers (eval own scope (.callOwn method args)) value events := by
  unfold Expr.callOwn
  exact hargs.bind hcall

theorem answers_evalAll_nil : Answers (evalAll own scope []) [] [] :=
  answers_pure _

theorem answers_evalAll_cons {e : Expr} {rest : List Expr} {value : Value} {values : List Value}
    {first second : List Event} (he : Answers (eval own scope e) value first)
    (hrest : Answers (evalAll own scope rest) values second) :
    Answers (evalAll own scope (e :: rest)) (value :: values) (first ++ second) :=
  he.bind (hrest.map (value :: ·))

theorem answers_evalEntries_nil : Answers (evalEntries own scope []) [] [] :=
  answers_pure _

theorem answers_evalEntries_cons {k v : Expr} {rest : List (Expr × Expr)} {key value : Value}
    {values : List (Value × Value)} {first second : List Event}
    (hk : Answers (eval own scope k) key []) (hv : Answers (eval own scope v) value first)
    (hrest : Answers (evalEntries own scope rest) values second) :
    Answers (evalEntries own scope ((k, v) :: rest)) ((key, value) :: values)
      (first ++ second) := by
  rw [evalEntries]
  exact hk.bind (hv.bind (hrest.map ((key, value) :: ·)))

theorem answers_eval_list {items : List Expr} {values : List Value} {events : List Event}
    (hitems : Answers (evalAll own scope items) values events) :
    Answers (eval own scope (.list items)) (.list values) events := by
  rw [eval]
  exact hitems.map Value.list

theorem answers_eval_map {entries : List (Expr × Expr)} {values : List (Value × Value)}
    {events : List Event} (hentries : Answers (evalEntries own scope entries) values events) :
    Answers (eval own scope (.map entries)) (.map values) events := by
  rw [eval]
  exact hentries.map Value.map

theorem answers_perform_eval {e : Expr} {value : Value} {events : List Event}
    (he : Answers (eval own scope e) value events) :
    Answers (perform own scope (.eval e)) (none, scope) events :=
  he.map fun _ => (none, scope)

theorem run_performAll_cons {s : Stmt} {rest : List Stmt} {scope' : Scope} {t t' : Trace}
    (hs : (perform own scope s).run t = some ((none, scope'), t')) :
    (performAll own scope (s :: rest)).run t = (performAll own scope' rest).run t' := by
  rw [performAll, run_bind_of_eq hs]

/-- Statements that neither return nor bind a name are run one after the other. -/
theorem run_performAll_map {α : Type} {l : List α} {f : α → Stmt} {after : Trace → α → Trace}
    (hf : ∀ a ∈ l, ∀ t, (perform own scope (f a)).run t = some ((none, scope), after t a))
    (rest : List Stmt) (t : Trace) :
    (performAll own scope (l.map f ++ rest)).run t =
      (performAll own scope rest).run (l.foldl after t) := by
  induction l generalizing t with
  | nil => rfl
  | cons a l ih =>
    rw [List.map_cons, List.cons_append, run_performAll_cons (hf a List.mem_cons_self t),
      ih fun b hb => hf b (List.mem_cons_of_mem a hb)]
    rfl

/-- The calls of statements that neither return nor bind a name, in their order. -/
theorem answers_performAll_map {α : Type} {l : List α} {f : α → Stmt} {events : α → List Event}
    (hf : ∀ a ∈ l, Answers (perform own scope (f a)) (none, scope) (events a)) {rest : List Stmt}
    {result : Option Value} {further : List Event}
    (hrest : Answers (performAll own scope rest) result further) :
    Answers (performAll own scope (l.map f ++ rest)) result (l.flatMap events ++ further) := by
  intro t
  have hfold : ∀ t : Trace, l.foldl (fun t a => t.add (events a)) t = t.add (l.flatMap events) := by
    clear hf
    induction l with
    | nil => simp
    | cons a l ih =>
      intro t
      rw [List.foldl_cons, ih, Trace.add_add, List.flatMap_cons]
  rw [run_performAll_map (fun a ha t => hf a ha t), hfold, hrest, Trace.add_add]

theorem answers_performAll_cons {s : Stmt} {rest : List Stmt} {scope' : Scope}
    {result : Option Value} {first second : List Event}
    (hs : Answers (perform own scope s) (none, scope') first)
    (hrest : Answers (performAll own scope' rest) result second) :
    Answers (performAll own scope (s :: rest)) result (first ++ second) := by
  intro t
  rw [run_performAll_cons (hs t), hrest, Trace.add_add]

/-- A statement that returns is the last one to run. -/
theorem answers_performAll_ret {e : Expr} {value : Value} {events : List Event}
    (he : Answers (eval own scope e) value events) (rest : List Stmt) :
    Answers (performAll own scope (.ret e :: rest)) (some value) events := by
  intro t
  have hreturn : (perform own scope (.ret e)).run t = some ((some value, scope), t.add events) := by
    rw [perform]
    exact he.map (fun value => (some value, scope)) t
  rw [performAll, run_bind_of_eq hreturn]
  rfl

theorem answers_performAll_nil : Answers (performAll own scope []) none [] := by
  rw [performAll]
  exact answers_pure none

end

end Code

namespace CodeUnit

open Code Code.Exec

/-- A method is called with as many values as it has parameters, which its statements can read. -/
theorem answers_call {u : CodeUnit} {fields : Scope} {depth : Nat} {m : Method} {name : String}
    {args : List Value} {result : Option Value} {events : List Event}
    (hmethod : u.method? name = some m) (hargs : m.params.length = args.length)
    (hbody : Answers
      (performAll (u.call fields depth) ((m.params.map (·.name)).zip args ++ fields) m.body)
      result events) :
    Answers (u.call fields (depth + 1) name args) (result.getD .null)
      (.own name args :: events) := by
  rw [call, hmethod]
  simp only [hargs, if_true]
  exact (answers_note (.own name args)).bind (hbody.map (·.getD .null))

/-- Nothing happens when a unit without fields and static code is first used. -/
theorem answers_firstUse {u : CodeUnit} (hfields : u.fields = []) (hinit : u.staticInit = [])
    (depth : Nat) : Answers (u.firstUse depth) [] [] := by
  have hnone : Answers (u.initFields depth [] u.fields) [] [] := by
    rw [hfields, initFields]
    exact answers_pure []
  have hdone : Answers (performAll (u.call [] depth) [] u.staticInit) none [] := by
    rw [hinit]
    exact answers_performAll_nil
  exact hnone.bind (hdone.map fun _ => [])

/-- In such a unit, a call of a method without parameters answers what the statements return. -/
theorem run_invoke {u : CodeUnit} {depth : Nat} {m : Method} {name : String} {value : Value}
    {t t' : Trace} (hfields : u.fields = []) (hinit : u.staticInit = [])
    (hmethod : u.method? name = some m) (hparams : m.params = [])
    (hbody : (performAll (u.call [] depth) [] m.body).run (t.add [.own name []]) =
      some (some value, t')) :
    (u.invoke (depth + 1) name []).run t = some (value, t') := by
  have hfirst := answers_firstUse hfields hinit (depth + 1) t
  rw [Trace.add_nil] at hfirst
  unfold invoke
  rw [run_bind_of_eq hfirst, call, hmethod]
  simp only [hparams, List.length_nil, List.map_nil, List.zip_nil_left, List.nil_append, if_true]
  rw [run_bind_of_eq (answers_note (.own name []) t), run_bind_of_eq hbody]
  rfl

end CodeUnit

end BuildAhead
