import BuildAhead.Proofs.Collection.Dict
import BuildAhead.Proofs.Generation.Flushing
import BuildAhead.Proofs.Generation.Units

set_option autoImplicit false

/-!
# Generation: histories of a context

Every state that a context can come to, over every sequence of calls of its operations: closures
whose units are tracked, within each other, calls that fail and are passed over, and flushes that
succeed or fail among them. What a call brings counts when the call succeeds. The units, the static
initializers and the queued writes of a context are what the calls so far have brought, in order,
and the first flush ends all of that.
-/

namespace BuildAhead

/-- The flush of the deferred writes, over the files that it finds. -/
def Generation.finish (folder : Files.Path) (tree : Files.Tree) : Generation Unit :=
  ExceptT.mk fun c => ((c.finish folder tree).1, (c.finish folder tree).2.1)

@[simp] theorem Generation.runOn_finish (folder : Files.Path) (tree : Files.Tree) (c : Context) :
    (Generation.finish folder tree).runOn c =
      ((c.finish folder tree).1, (c.finish folder tree).2.1) := rfl

/-- An operation on a context, with what it is called with. To look at a context is none: it changes
nothing. -/
inductive Operation where
  | diagnose (category message : String)
  | registerUnit (u : CodeUnit)
  | registerStaticInitializer (m : Code.Method)
  | registerStaticOptimization (name kind : String) (body : LoaderBody)
  | registerResource (path : String) (action : FinishView → FileAction)
  | registerServiceImplementation (service name : String)
  | writeServiceManifest (service name : String)
  | excludeResource (path : String)
  | requireBuildTimeInit (name : String)
  | publishSubstitutes (s : Substitutes)
  | publishDeducedEnvironment (deduce : Bool)
  | markExecuted (id : String)
  | finish (folder : Files.Path) (tree : Files.Tree)

namespace Operation

/-- The operation as an action, without what it answers when it succeeds. -/
def action : Operation → Generation Unit
  | .diagnose category message => Generation.diagnose category message
  | .registerUnit u => do let _ ← Generation.registerUnit u
  | .registerStaticInitializer m => Generation.registerStaticInitializer m
  | .registerStaticOptimization name kind body => do
    let _ ← Generation.registerStaticOptimization name kind body
  | .registerResource path action => Generation.registerResource path action
  | .registerServiceImplementation service name =>
    Generation.registerServiceImplementation service name
  | .writeServiceManifest service name => Generation.writeServiceManifest service name
  | .excludeResource path => Generation.excludeResource path
  | .requireBuildTimeInit name => Generation.requireBuildTimeInit name
  | .publishSubstitutes s => Generation.publishSubstitutes s
  | .publishDeducedEnvironment deduce => Generation.publishDeducedEnvironment deduce
  | .markExecuted id => Generation.markExecuted id
  | .finish folder tree => Generation.finish folder tree

/-- The unit that an operation registers. -/
def unit? (space : String) : Operation → Option CodeUnit
  | .registerUnit u => some u
  | .registerStaticOptimization name kind body => some (Generation.loaderUnit space name kind body)
  | _ => none

/-- The static initializer that an operation registers. -/
def initializer? (_space : String) : Operation → Option Code.Method
  | .registerStaticInitializer m => some m
  | _ => none

/-- The write that an operation queues. -/
def write? (space : String) : Operation → Option PendingWrite
  | .registerStaticOptimization name _ _ =>
    some ⟨Names.serviceManifest Runtime.optimizationLoader,
      fun _ => .append (Generation.manifestLine space name)⟩
  | .registerResource path action => some ⟨path, action⟩
  | .registerServiceImplementation service name =>
    some ⟨Names.serviceManifest service, fun _ => .append (Generation.manifestLine space name)⟩
  | .writeServiceManifest service name =>
    some ⟨Names.serviceManifest service, fun _ => .replace (Generation.manifestLine space name)⟩
  | _ => none

/-- Whether an operation is a flush. -/
def finishes : Operation → Bool
  | .finish .. => true
  | _ => false

/-- Whether an operation registers or flushes. -/
def needsOpen : Operation → Bool
  | .registerUnit .. | .registerStaticInitializer .. | .registerStaticOptimization ..
  | .registerResource .. | .registerServiceImplementation .. | .writeServiceManifest ..
  | .finish .. => true
  | _ => false

/-- The queued writes whose actions an operation carries out. -/
def invoked (c : Context) : Operation → List PendingWrite
  | .finish folder tree => (c.notedFinish folder tree).2
  | _ => []

end Operation

/-! ## One operation -/

/-- What an operation brings counts when the operation succeeds. -/
def granted {β : Type} (outcome : Except BuildError Unit) (brought : Option β) : List β :=
  match outcome with
  | .ok () => brought.toList
  | .error _ => []

@[simp] theorem granted_none {β : Type} (outcome : Except BuildError Unit) :
    granted (β := β) outcome none = [] := by
  cases outcome <;> rfl

/-- What one operation does to a context. -/
structure Operation.Leaves (o : Operation) (c : Context) (outcome : Except BuildError Unit)
    (c' : Context) : Prop where
  space : c'.space = c.space
  adds : c.AddsUnits c' (granted outcome (o.unit? c.space))
  initializers : c'.staticInitializers =
    c.staticInitializers ++ granted outcome (o.initializer? c.space)
  newInitializer : ∀ m ∈ granted outcome (o.initializer? c.space),
    (c.staticInitializers.any fun n => n.name == m.name) = false
  finished : c'.finished = (c.finished || o.finishes)
  pending : o.finishes = false → c'.pending = c.pending ++ granted outcome (o.write? c.space)
  closed : c.finished = true → o.needsOpen = true → outcome = .error .alreadyFinished ∧ c' = c

namespace Operation.Leaves

variable {o : Operation} {c : Context} {outcome : Except BuildError Unit}

/-- An operation that was refused. What it changed before is not among what is registered. -/
theorem refused {e : BuildError} {c' : Context} (hfinishes : o.finishes = false)
    (h : (c'.space, c'.units, c'.unitNames, c'.staticInitializers, c'.pending, c'.finished) =
      (c.space, c.units, c.unitNames, c.staticInitializers, c.pending, c.finished))
    (hclosed : c.finished = true → e = .alreadyFinished ∧ c' = c) : o.Leaves c (.error e) c' := by
  simp only [Prod.mk.injEq] at h
  obtain ⟨hspace, hunits, hnames, hinitializers, hpending, hfinished⟩ := h
  refine ⟨hspace, .none hunits hnames, ?_, ?_, ?_, ?_, ?_⟩
  · rw [hinitializers, granted, List.append_nil]
  · intro m hm
    cases hm
  · rw [hfinished, hfinishes, Bool.or_false]
  · intro _
    rw [hpending, granted, List.append_nil]
  · intro hopen _
    exact ⟨congrArg Except.error (hclosed hopen).1, (hclosed hopen).2⟩

/-- An operation that does not touch what is registered. -/
theorem aside {c' : Context} (hunit : o.unit? c.space = none)
    (hinitializer : o.initializer? c.space = none) (hwrite : o.write? c.space = none)
    (hfinishes : o.finishes = false) (hneeds : o.needsOpen = false)
    (h : (c'.space, c'.units, c'.unitNames, c'.staticInitializers, c'.pending, c'.finished) =
      (c.space, c.units, c.unitNames, c.staticInitializers, c.pending, c.finished)) :
    o.Leaves c outcome c' := by
  simp only [Prod.mk.injEq] at h
  obtain ⟨hspace, hunits, hnames, hinitializers, hpending, hfinished⟩ := h
  refine ⟨hspace, ?_, ?_, ?_, ?_, ?_, ?_⟩
  · rw [hunit, granted_none]
    exact .none hunits hnames
  · rw [hinitializers, hinitializer, granted_none, List.append_nil]
  · simp [hinitializer]
  · rw [hfinished, hfinishes, Bool.or_false]
  · intro _
    rw [hpending, hwrite, granted_none, List.append_nil]
  · intro _ hneeds'
    rw [hneeds] at hneeds'
    cases hneeds'

/-- An operation that only queues a write. -/
theorem queues {w : PendingWrite} (hrun : o.action.runOn c =
      if c.finished then (.error .alreadyFinished, c)
      else (.ok (), { c with pending := c.pending ++ [w] }))
    (hunit : o.unit? c.space = none) (hinitializer : o.initializer? c.space = none)
    (hwrite : o.write? c.space = some w) (hfinishes : o.finishes = false) :
    o.Leaves c (o.action.runOn c).1 (o.action.runOn c).2 := by
  rw [hrun]
  split
  · exact .refused hfinishes rfl fun _ => ⟨rfl, rfl⟩
  · next hopen =>
    refine ⟨rfl, ?_, ?_, ?_, ?_, ?_, fun hclosed => absurd hclosed hopen⟩
    · rw [hunit, granted_none]
      exact .none rfl rfl
    · rw [hinitializer, granted_none, List.append_nil]
    · simp [hinitializer]
    · rw [hfinishes, Bool.or_false]
    · intro _
      rw [hwrite]
      rfl

/-- An operation that registers a unit under a new name. What it does besides is either not among
what is registered, as `refusal` and `rest` leave it, or the write that it queues. -/
theorem registers {u : CodeUnit} (refusal rest : Context)
    (hrun : o.action.runOn c =
      if c.finished then (.error .alreadyFinished, c)
      else if c.hasUnit u.qualifiedName then (.error (.nameCollision u.qualifiedName), refusal)
      else (.ok (), { rest with
        units := c.units ++ [u]
        unitNames := c.unitNames.insert u.qualifiedName
        pending := c.pending ++ (o.write? c.space).toList }))
    (hrefusal : (refusal.space, refusal.units, refusal.unitNames, refusal.staticInitializers,
      refusal.pending, refusal.finished) =
        (c.space, c.units, c.unitNames, c.staticInitializers, c.pending, c.finished))
    (hrest : (rest.space, rest.staticInitializers, rest.finished) =
      (c.space, c.staticInitializers, c.finished))
    (hunit : o.unit? c.space = some u) (hinitializer : o.initializer? c.space = none)
    (hfinishes : o.finishes = false) :
    o.Leaves c (o.action.runOn c).1 (o.action.runOn c).2 := by
  rw [hrun]
  by_cases hfinished : c.finished = true
  · rw [if_pos hfinished]
    exact .refused hfinishes rfl fun _ => ⟨rfl, rfl⟩
  rw [if_neg hfinished]
  by_cases hhas : c.hasUnit u.qualifiedName = true
  · rw [if_pos hhas]
    exact .refused hfinishes hrefusal fun hclosed => absurd hclosed hfinished
  rw [if_neg hhas]
  simp only [Prod.mk.injEq] at hrest
  obtain ⟨hspace, hinitializers, hopen⟩ := hrest
  refine ⟨hspace, ?_, ?_, ?_, ?_, fun _ => rfl, fun hclosed => absurd hclosed hfinished⟩
  · rw [hunit]
    exact .single (Bool.eq_false_iff.2 hhas) rfl rfl
  · rw [hinitializer, granted_none, List.append_nil]
    exact hinitializers
  · simp [hinitializer]
  · rw [hfinishes, Bool.or_false]
    exact hopen

/-- A static initializer is registered under a new name. -/
theorem registersInitializer (m : Code.Method) (c : Context) :
    (Operation.registerStaticInitializer m).Leaves c
      ((Generation.registerStaticInitializer m).runOn c).1
      ((Generation.registerStaticInitializer m).runOn c).2 := by
  rw [Generation.runOn_registerStaticInitializer]
  by_cases hfinished : c.finished = true
  · rw [if_pos hfinished]
    exact .refused rfl rfl fun _ => ⟨rfl, rfl⟩
  rw [if_neg hfinished]
  by_cases hhas : (c.staticInitializers.any fun n => n.name == m.name) = true
  · rw [if_pos hhas]
    exact .refused rfl rfl fun hclosed => absurd hclosed hfinished
  rw [if_neg hhas]
  refine ⟨rfl, .none rfl rfl, rfl, ?_, (Bool.or_false _).symm,
    fun _ => (List.append_nil _).symm, fun hclosed => absurd hclosed hfinished⟩
  intro n hn
  rw [List.mem_singleton.1 hn]
  exact Bool.eq_false_iff.2 hhas

/-- A flush leaves what is registered and closes the context, in whatever way it ends. -/
theorem flushes (folder : Files.Path) (tree : Files.Tree) (c : Context) :
    (Operation.finish folder tree).Leaves c (c.finish folder tree).1
      (c.finish folder tree).2.1 := by
  unfold Context.finish
  by_cases hfinished : c.finished = true
  · rw [if_pos hfinished]
    exact ⟨rfl, .none rfl rfl, (List.append_nil _).symm, nofun,
      by rw [hfinished]; rfl, nofun, fun _ _ => ⟨rfl, rfl⟩⟩
  · rw [if_neg hfinished]
    refine ⟨rfl, ?_, ?_, ?_, (Bool.or_true _).symm, nofun,
      fun hclosed => absurd hclosed hfinished⟩
    · have hunit : (Operation.finish folder tree).unit? c.space = none := rfl
      rw [hunit, granted_none]
      exact .none rfl rfl
    · simp [Operation.initializer?]
    · simp [Operation.initializer?]

end Operation.Leaves

/-- An operation adds what it brings behind the rest when it succeeds, and nothing otherwise. -/
theorem Operation.leaves (o : Operation) (c : Context) :
    o.Leaves c (o.action.runOn c).1 (o.action.runOn c).2 := by
  cases o with
  | diagnose category message => exact .aside rfl rfl rfl rfl rfl rfl
  | registerUnit u =>
    refine .registers c c ?_ rfl rfl rfl rfl rfl
    have hqueued : (Operation.registerUnit u).write? c.space = none := rfl
    rw [Operation.action, Generation.runOn_discard, Generation.runOn_registerUnit, hqueued,
      Option.toList_none, List.append_nil]
    split
    · rfl
    · split <;> rfl
  | registerStaticInitializer m => exact .registersInitializer m c
  | registerStaticOptimization name kind body =>
    have hrun := Generation.runOn_registerStaticOptimization name kind body c
    simp only at hrun
    refine .registers { c with buildTimeInit := c.buildTimeInit.insert kind }
      { c with buildTimeInit := c.buildTimeInit.insert kind } ?_ rfl rfl rfl rfl rfl
    rw [Operation.action, Generation.runOn_discard, hrun]
    split
    · rfl
    · split <;> rfl
  | registerResource path action =>
    exact .queues (Generation.runOn_registerResource path action c) rfl rfl rfl rfl
  | registerServiceImplementation service name =>
    exact .queues (Generation.runOn_registerServiceImplementation service name c) rfl rfl rfl rfl
  | writeServiceManifest service name =>
    exact .queues (Generation.runOn_writeServiceManifest service name c) rfl rfl rfl rfl
  | excludeResource path => exact .aside rfl rfl rfl rfl rfl rfl
  | requireBuildTimeInit name => exact .aside rfl rfl rfl rfl rfl rfl
  | publishSubstitutes s => exact .aside rfl rfl rfl rfl rfl rfl
  | publishDeducedEnvironment deduce => exact .aside rfl rfl rfl rfl rfl rfl
  | markExecuted id => exact .aside rfl rfl rfl rfl rfl rfl
  | finish folder tree => exact .flushes folder tree c

/-! ## Sequences of operations -/

namespace Operation

/-- The context that operations leave; those that fail are passed over. -/
def after : List Operation → Context → Context
  | [], c => c
  | o :: rest, c => after rest (o.action.runOn c).2

/-- What the operations that succeed bring, in order. -/
def recorded {β : Type} (brings : String → Operation → Option β) :
    List Operation → Context → List β
  | [], _ => []
  | o :: rest, c =>
    granted (o.action.runOn c).1 (brings c.space o) ++
      recorded brings rest (o.action.runOn c).2

/-- The queued writes whose actions operations carry out, in order. -/
def invokedAll : List Operation → Context → List PendingWrite
  | [], _ => []
  | o :: rest, c => o.invoked c ++ invokedAll rest (o.action.runOn c).2

section Sequences

variable (os later : List Operation) (c : Context)

theorem after_append : after (os ++ later) c = after later (after os c) := by
  induction os generalizing c with
  | nil => rfl
  | cons o rest ih => exact ih _

/-- The units of the operations that succeed stand behind the others, and their names are recorded
beside the others. -/
theorem addsUnits_after : c.AddsUnits (after os c) (recorded unit? os c) := by
  induction os generalizing c with
  | nil => exact .none rfl rfl
  | cons o rest ih => exact (o.leaves c).adds.trans (ih (o.action.runOn c).2)

theorem initializers_after :
    (after os c).staticInitializers = c.staticInitializers ++ recorded initializer? os c := by
  induction os generalizing c with
  | nil => exact (List.append_nil _).symm
  | cons o rest ih => rw [after, recorded, ih, (o.leaves c).initializers, List.append_assoc]

theorem finished_after : (after os c).finished = (c.finished || os.any finishes) := by
  induction os generalizing c with
  | nil => exact (Bool.or_false _).symm
  | cons o rest ih => rw [after, ih, (o.leaves c).finished, List.any_cons, Bool.or_assoc]

theorem nodup_map_append_granted {β : Type} {key : β → String} {old : List β}
    {outcome : Except BuildError Unit} {brought : Option β} (hold : (old.map key).Nodup)
    (hnew : ∀ b ∈ granted outcome brought, (old.any fun other => key other == key b) = false) :
    ((old ++ granted outcome brought).map key).Nodup := by
  cases outcome with
  | error e => simpa [granted] using hold
  | ok _ =>
    cases brought with
    | none => simpa [granted] using hold
    | some b => exact nodup_map_concat hold (hnew b (List.mem_singleton_self b))

theorem initializers_nodup_after (h : (c.staticInitializers.map Code.Method.name).Nodup) :
    ((after os c).staticInitializers.map Code.Method.name).Nodup := by
  induction os generalizing c with
  | nil => exact h
  | cons o rest ih =>
    refine ih _ ?_
    rw [(o.leaves c).initializers]
    exact nodup_map_append_granted h (o.leaves c).newInitializer

end Sequences

/-! ## Before and after the first flush -/

section Flushes

variable {os : List Operation} {c : Context}

theorem pending_after (h : os.any finishes = false) :
    (after os c).pending = c.pending ++ recorded write? os c := by
  induction os generalizing c with
  | nil => exact (List.append_nil _).symm
  | cons o rest ih =>
    rw [List.any_cons, Bool.or_eq_false_iff] at h
    rw [after, recorded, ih h.2, (o.leaves c).pending h.1, List.append_assoc]

theorem invoked_eq_nil {o : Operation} (h : o.finishes = false) : o.invoked c = [] := by
  cases o with
  | finish folder tree => cases h
  | _ => rfl

/-- Without a flush nothing is carried out. -/
theorem invokedAll_eq_nil (h : os.any finishes = false) : invokedAll os c = [] := by
  induction os generalizing c with
  | nil => rfl
  | cons o rest ih =>
    rw [List.any_cons, Bool.or_eq_false_iff] at h
    rw [invokedAll, invoked_eq_nil h.1, ih h.2, List.append_nil]

theorem invokedAll_eq_nil_of_finished (h : c.finished = true) : invokedAll os c = [] := by
  induction os generalizing c with
  | nil => rfl
  | cons o rest ih =>
    have hlater : (o.action.runOn c).2.finished = true := by
      rw [(o.leaves c).finished, h, Bool.true_or]
    rw [invokedAll, ih hlater, List.append_nil]
    cases o with
    | finish folder tree => simp [invoked, Context.notedFinish, h]
    | _ => rfl

/-- Nothing is carried out that was not queued before, and the order is that of the queue. -/
theorem invokedAll_prefix (h : c.finished = false) :
    invokedAll os c <+: c.pending ++ recorded write? os c := by
  induction os generalizing c with
  | nil => exact List.nil_prefix
  | cons o rest ih =>
    rw [invokedAll, recorded]
    cases hfinishes : o.finishes with
    | false =>
      have hlater : (o.action.runOn c).2.finished = false := by
        rw [(o.leaves c).finished, h, hfinishes, Bool.or_false]
      have hprefix := ih hlater
      rw [(o.leaves c).pending hfinishes, List.append_assoc] at hprefix
      rw [invoked_eq_nil hfinishes, List.nil_append]
      exact hprefix
    | true =>
      have hlater : (o.action.runOn c).2.finished = true := by
        rw [(o.leaves c).finished, hfinishes, Bool.or_true]
      rw [invokedAll_eq_nil_of_finished hlater, List.append_nil]
      cases o with
      | finish folder tree =>
        have hstops := PendingWrite.stops_notedRunAll c.view folder [] tree c.pending
        have hinvoked : (Operation.finish folder tree).invoked c =
            (PendingWrite.notedRunAll c.view folder [] tree c.pending).2 := by
          simp [invoked, Context.notedFinish, h]
        rw [hinvoked]
        exact hstops.invoked_prefix.trans (List.prefix_append _ _)
      | _ => cases hfinishes

/-- A finished context refuses what needs an open one. -/
theorem runOn_action_of_finished {o : Operation} (h : c.finished = true)
    (hneeds : o.needsOpen = true) : o.action.runOn c = (.error .alreadyFinished, c) := by
  obtain ⟨houtcome, hcontext⟩ := (o.leaves c).closed h hneeds
  exact Prod.ext houtcome hcontext

end Flushes

/-! ## From a new context -/

section New

variable {os : List Operation} {start : Context}

/-- In a context that began without units, the names of the units are what is recorded, each
once. -/
theorem names_after (hunits : start.units = []) (hnames : start.unitNames = ∅) :
    (after os start).NamesRecorded ∧
      ((after os start).units.map CodeUnit.qualifiedName).Nodup := by
  have hadds := addsUnits_after os start
  have hstart := Context.namesRecorded_start hunits hnames
  exact ⟨hadds.namesRecorded hstart, hadds.names_nodup hstart (by simp [hunits])⟩

/-- Where the names of the units are what is recorded, a unit is refused for the name of another. -/
theorem runOn_registerUnit_of_namesRecorded {c : Context} (hc : c.NamesRecorded) (u : CodeUnit) :
    (Generation.registerUnit u).runOn c =
      if c.finished then (.error .alreadyFinished, c)
      else if u.qualifiedName ∈ c.units.map CodeUnit.qualifiedName then
        (.error (.nameCollision u.qualifiedName), c)
      else (.ok u.unitName, c.addUnit u) := by
  rw [Generation.runOn_registerUnit]
  simp only [hc u.qualifiedName]

/-- The first flush finds all that was queued. -/
theorem stops_finish_after (hpending : start.pending = [])
    (hopen : (after os start).finished = false) (hflushless : os.any finishes = false)
    (folder : Files.Path) (tree : Files.Tree) :
    PendingWrite.Stops (after os start).view folder [] tree (recorded write? os start)
      (((after os start).finish folder tree).1, ((after os start).finish folder tree).2.2)
      ((after os start).notedFinish folder tree).2 := by
  have hqueued := pending_after (c := start) hflushless
  rw [hpending, List.nil_append] at hqueued
  have hstops := PendingWrite.stops_notedRunAll (after os start).view folder [] tree
    (after os start).pending
  rw [← hqueued, ← Context.notedFinish_fst]
  simpa [Context.notedFinish, hopen] using hstops

end New

end Operation

/-! ## Calls with closures -/

/-- A call on a context. A closure whose units are tracked may look at the context and decide by it;
on one context it makes some calls, whose errors it passes over or not, and ends in some way. -/
inductive ContextCall where
  | once (o : Operation)
  | trackUnits (body : List ContextCall) (ending : Except BuildError Unit)

namespace ContextCall

mutual

/-- A call as an action. -/
def action : ContextCall → Generation Unit
  | .once o => o.action
  | .trackUnits body ending => do
    let _ ← Generation.trackUnits (performAll body >>= fun _ => ExceptT.mk (pure ending))

/-- Calls in order; the errors of those that fail are passed over. -/
def performAll : List ContextCall → Generation Unit
  | [] => pure ()
  | call :: rest => do
    tryCatch call.action fun _ => pure ()
    performAll rest

end

/-- A closure that makes these calls and ends in this way. -/
def closure {α : Type} (body : List ContextCall) (ending : Except BuildError α) : Generation α :=
  performAll body >>= fun _ => ExceptT.mk (pure ending)

mutual

/-- The operations of a call, those of closures included. -/
def operations : ContextCall → List Operation
  | .once o => [o]
  | .trackUnits body _ => operationsAll body

/-- The operations of calls in order. -/
def operationsAll : List ContextCall → List Operation
  | [] => []
  | call :: rest => call.operations ++ operationsAll rest

end

theorem runOn_closure {α : Type} {body : List ContextCall} {ending : Except BuildError α}
    {c after : Context} (hbody : (performAll body).runOn c = (.ok (), after)) :
    (closure body ending).runOn c = (ending, after) := by
  rw [closure, Generation.runOn_bind, hbody]
  rfl

mutual

/-- A call leaves the context that its operations leave, in whatever way it ends. -/
theorem runOn_action (call : ContextCall) (c : Context) :
    (call.action.runOn c).2 = Operation.after call.operations c := by
  cases call with
  | once o => rfl
  | trackUnits body ending =>
    have hclosure : (closure body ending).runOn c = (ending, _) :=
      runOn_closure (runOn_performAll body c)
    have htracked := Generation.runOn_trackUnits (closure body ending) c
    rw [hclosure] at htracked
    show (((Generation.trackUnits (closure body ending)) >>= fun _ => pure ()).runOn c).2 = _
    rw [Generation.runOn_discard, htracked, operations]
    cases ending <;> rfl

/-- Calls in order leave the context that their operations leave. -/
theorem runOn_performAll (calls : List ContextCall) (c : Context) :
    (performAll calls).runOn c = (.ok (), Operation.after (operationsAll calls) c) := by
  cases calls with
  | nil => rfl
  | cons call rest =>
    have hleft := runOn_action call c
    rw [performAll, Generation.runOn_bind, Generation.runOn_tryCatch, operationsAll,
      Operation.after_append, ← hleft]
    rcases call.action.runOn c with ⟨e | ⟨⟩, c'⟩
    · exact runOn_performAll rest c'
    · exact runOn_performAll rest c'

end

/-- Further calls add at the end. -/
theorem performAll_grows {more : List ContextCall} {c after : Context}
    (h : (performAll more).runOn c = (.ok (), after)) :
    c.units <+: after.units ∧ c.staticInitializers <+: after.staticInitializers := by
  rw [runOn_performAll] at h
  cases h
  rw [(Operation.addsUnits_after _ c).units, Operation.initializers_after]
  exact ⟨List.prefix_append _ _, List.prefix_append _ _⟩

/-- The units of a closure are those that its calls registered. -/
theorem runOn_trackUnits_closure {α : Type} (body : List ContextCall)
    (ending : Except BuildError α) (c : Context) :
    ((Generation.trackUnits (closure body ending)).runOn c).1 = ending.map fun a =>
      (a, Operation.recorded Operation.unit? (operationsAll body) c) := by
  rw [Generation.runOn_trackUnits, runOn_closure (runOn_performAll body c)]
  cases ending with
  | error e => rfl
  | ok a =>
    simp only [(Operation.addsUnits_after _ c).units, List.drop_left]
    rfl

end ContextCall

/-! ## Every history -/

/-- What holds of a context that began as `start`, after these calls. -/
structure Accounted (start : Context) (calls : List ContextCall) (c : Context) : Prop where
  performed : (ContextCall.performAll calls).runOn start = (.ok (), c)
  units : c.units = Operation.recorded Operation.unit? (ContextCall.operationsAll calls) start
  names_nodup : (c.units.map CodeUnit.qualifiedName).Nodup
  /-- the recorded names are those of the units -/
  mem_unitNames : ∀ name, name ∈ c.unitNames.toList ↔ name ∈ c.units.map CodeUnit.qualifiedName
  /-- a unit is refused exactly when the context is finished or another unit has its name -/
  registerUnit : ∀ u, (Generation.registerUnit u).runOn c =
    if c.finished then (.error .alreadyFinished, c)
    else if u.qualifiedName ∈ c.units.map CodeUnit.qualifiedName then
      (.error (.nameCollision u.qualifiedName), c)
    else (.ok u.unitName, c.addUnit u)
  initializers : c.staticInitializers =
    Operation.recorded Operation.initializer? (ContextCall.operationsAll calls) start
  initializers_nodup : (c.staticInitializers.map Code.Method.name).Nodup
  grows : ∀ more after, (ContextCall.performAll more).runOn c = (.ok (), after) →
    c.units <+: after.units ∧ c.staticInitializers <+: after.staticInitializers
  /-- a closure that succeeds is answered the units that its calls registered, in order -/
  tracks : ∀ {α : Type} (body : List ContextCall) (ending : Except BuildError α),
    ((Generation.trackUnits (ContextCall.closure body ending)).runOn c).1 = ending.map fun a =>
      (a, Operation.recorded Operation.unit? (ContextCall.operationsAll body) c)
  finished_iff : c.finished = true ↔
    ∃ o ∈ ContextCall.operationsAll calls, o.finishes = true
  /-- the writes whose actions are carried out are noted beside a flush that is otherwise the
  same -/
  noted : ∀ (c' : Context) folder tree, (c'.notedFinish folder tree).1 = c'.finish folder tree
  /-- over all flushes, writes are carried out in the order of the queue, each once -/
  invoked_prefix : Operation.invokedAll (ContextCall.operationsAll calls) start <+:
    Operation.recorded Operation.write? (ContextCall.operationsAll calls) start
  /-- the first flush carries out what is queued, up to the first write that fails: the text of each
  is in its file then -/
  flushes : c.finished = false → ∀ folder tree,
    Operation.invokedAll (ContextCall.operationsAll calls) start = [] ∧
      PendingWrite.Stops c.view folder [] tree
        (Operation.recorded Operation.write? (ContextCall.operationsAll calls) start)
        ((c.finish folder tree).1, (c.finish folder tree).2.2) (c.notedFinish folder tree).2
  /-- no later flush carries anything out -/
  idle : c.finished = true → ∀ folder tree, (c.notedFinish folder tree).2 = []
  /-- after the first flush, registrations and flushes are refused -/
  closed : c.finished = true → ∀ o : Operation, o.needsOpen = true →
    o.action.runOn c = (.error .alreadyFinished, c)

end BuildAhead
