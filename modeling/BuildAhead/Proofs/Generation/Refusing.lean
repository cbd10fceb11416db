import BuildAhead.Proofs.Generation.History

set_option autoImplicit false

/-!
# Generation: refused registrations

What a registration leaves behind when it is refused. It is refused when the context is finished, or
when another unit or static initializer has the name that it asks for, and then nothing in the
context changes, with one exception. An optimization loader has its type entered for the build
before the name of its unit is looked up, so where the name is taken the type stays behind, and no
later call takes it out again.
-/

namespace BuildAhead

namespace Operation

/-- Whether an operation registers something. -/
def registers : Operation → Bool
  | .registerUnit .. | .registerStaticInitializer .. | .registerStaticOptimization ..
  | .registerResource .. | .registerServiceImplementation .. | .writeServiceManifest .. => true
  | _ => false

/-- The type that an operation registers an optimization loader for. -/
def loadedType? : Operation → Option String
  | .registerStaticOptimization _ kind _ => some kind
  | _ => none

/-- Why a context refuses a registration: it is finished, or the name is taken. A name that is
recorded is that of a unit, where the names of the units are what is recorded. -/
inductive Cause (o : Operation) (c : Context) : BuildError → Prop where
  | finished : c.finished = true → Cause o c .alreadyFinished
  | unit (u : CodeUnit) : c.finished = false → o.unit? c.space = some u →
    c.hasUnit u.qualifiedName = true →
    (c.NamesRecorded → u.qualifiedName ∈ c.units.map CodeUnit.qualifiedName) →
    Cause o c (.nameCollision u.qualifiedName)
  | initializer (m : Code.Method) : c.finished = false → o.initializer? c.space = some m →
    m.name ∈ c.staticInitializers.map Code.Method.name →
    Cause o c (.nameCollision ("static initializer " ++ m.name))

/-- What a registration that is refused with an error leaves of a context. -/
structure Refuses (o : Operation) (c : Context) (e : BuildError) (c' : Context) : Prop where
  cause : o.Cause c e
  /-- nothing changes besides the types that are initialized for the build -/
  rest : { c' with buildTimeInit := c.buildTimeInit } = c
  /-- only the type of a loader is added, when the context is open -/
  mem_buildTimeInit : ∀ type, type ∈ c'.buildTimeInit.toList ↔
    type ∈ c.buildTimeInit.toList ∨ (c.finished = false ∧ o.loadedType? = some type)
  /-- all is as before unless this type is new -/
  unchanged_iff : c' = c ↔ ∀ type, c.finished = false → o.loadedType? = some type →
    type ∈ c.buildTimeInit.toList
  /-- what was entered is not taken out again -/
  stays : ∀ (calls : List ContextCall) (later : Context),
    (ContextCall.performAll calls).runOn c' = (.ok (), later) →
      ∀ type ∈ c'.buildTimeInit.toList, type ∈ later.buildTimeInit.toList

/-! ## Types for the build stay -/

/-- No operation takes a type out of those that are initialized for the build. -/
theorem mem_buildTimeInit_runOn (o : Operation) {c : Context} {type : String}
    (h : type ∈ c.buildTimeInit.toList) :
    type ∈ (o.action.runOn c).2.buildTimeInit.toList := by
  have hinsert : ∀ name, type ∈ (c.buildTimeInit.insert name).toList :=
    fun name => (NameSet.mem_insert _ _ _).2 (.inr h)
  cases o with
  | registerUnit u =>
    rw [action, Generation.runOn_discard, Generation.runOn_registerUnit]
    split_ifs <;> exact h
  | registerStaticInitializer m =>
    rw [action, Generation.runOn_registerStaticInitializer]
    split_ifs <;> exact h
  | registerStaticOptimization name kind body =>
    rw [action, Generation.runOn_discard, Generation.runOn_registerStaticOptimization]
    dsimp only
    split_ifs
    · exact h
    · exact hinsert kind
    · exact hinsert kind
  | registerResource path action =>
    rw [Operation.action, Generation.runOn_registerResource]
    split_ifs <;> exact h
  | registerServiceImplementation service name =>
    rw [action, Generation.runOn_registerServiceImplementation]
    split_ifs <;> exact h
  | writeServiceManifest service name =>
    rw [action, Generation.runOn_writeServiceManifest]
    split_ifs <;> exact h
  | requireBuildTimeInit name => exact hinsert name
  | finish folder tree =>
    rw [action, Generation.runOn_finish, Context.finish]
    split_ifs <;> exact h
  | diagnose category message => exact h
  | excludeResource path => exact h
  | publishSubstitutes s => exact h
  | publishDeducedEnvironment deduce => exact h
  | markExecuted id => exact h

theorem mem_buildTimeInit_after (os : List Operation) {c : Context} {type : String}
    (h : type ∈ c.buildTimeInit.toList) : type ∈ (after os c).buildTimeInit.toList := by
  induction os generalizing c with
  | nil => exact h
  | cons o rest ih => exact ih (o.mem_buildTimeInit_runOn h)

theorem mem_buildTimeInit_performAll {calls : List ContextCall} {c later : Context}
    (hrun : (ContextCall.performAll calls).runOn c = (.ok (), later)) {type : String}
    (h : type ∈ c.buildTimeInit.toList) : type ∈ later.buildTimeInit.toList := by
  rw [ContextCall.runOn_performAll] at hrun
  cases hrun
  exact mem_buildTimeInit_after _ h

/-! ## Refusals -/

/-- A unit is refused on an open context when its name is recorded. -/
theorem Cause.ofHasUnit {o : Operation} {c : Context} {u : CodeUnit} (hopen : c.finished = false)
    (hunit : o.unit? c.space = some u) (htaken : c.hasUnit u.qualifiedName = true) :
    o.Cause c (.nameCollision u.qualifiedName) :=
  .unit u hopen hunit htaken fun hc => (hc u.qualifiedName).1 htaken

namespace Refuses

variable {o : Operation} {c c' : Context} {e : BuildError}

/-- A refusal that leaves the context as it was. -/
theorem unchanged (hcause : o.Cause c e)
    (hknown : ∀ type, c.finished = false → o.loadedType? = some type →
      type ∈ c.buildTimeInit.toList) : o.Refuses c e c where
  cause := hcause
  rest := rfl
  mem_buildTimeInit type := by
    constructor
    · exact .inl
    · rintro (h | ⟨hopen, hloaded⟩)
      · exact h
      · exact hknown type hopen hloaded
  unchanged_iff := iff_of_true rfl hknown
  stays _ _ hrun _ h := mem_buildTimeInit_performAll hrun h

/-- A loader that is refused on an open context leaves its type. -/
theorem afterType {type : String} (hcause : o.Cause c e) (hopen : c.finished = false)
    (hloaded : o.loadedType? = some type) :
    o.Refuses c e { c with buildTimeInit := c.buildTimeInit.insert type } where
  cause := hcause
  rest := rfl
  mem_buildTimeInit other := by
    rw [NameSet.mem_insert, hloaded, Option.some_inj, or_comm, eq_comm]
    simp [hopen]
  unchanged_iff := by
    constructor
    · intro heq other _ hother
      rw [hloaded, Option.some_inj] at hother
      have hset : c.buildTimeInit.insert type = c.buildTimeInit :=
        congrArg Context.buildTimeInit heq
      rw [← hset, ← hother]
      exact (NameSet.mem_insert _ _ _).2 (.inl rfl)
    · intro hknown
      rw [NameSet.insert_of_mem (hknown type hopen hloaded)]
  stays _ _ hrun _ h := mem_buildTimeInit_performAll hrun h

/-- A registration that asks for a name and does nothing before it looks the name up. -/
theorem ofName (taken : Bool) (name : String) (granted : Context)
    (hkind : o.loadedType? = none)
    (hrun : o.action.runOn c =
      if c.finished then (.error .alreadyFinished, c)
      else if taken then (.error (.nameCollision name), c) else (.ok (), granted))
    (hcause : c.finished = false → taken = true → o.Cause c (.nameCollision name))
    (h : o.action.runOn c = (.error e, c')) : o.Refuses c e c' := by
  have hnone : ∀ type, c.finished = false → o.loadedType? = some type →
      type ∈ c.buildTimeInit.toList := by
    intro type _ hloaded
    rw [hkind] at hloaded
    cases hloaded
  rw [hrun] at h
  split_ifs at h with hfinished htaken
  · cases h
    exact .unchanged (.finished hfinished) hnone
  · cases h
    exact .unchanged (hcause (Bool.eq_false_iff.2 hfinished) htaken) hnone
  · cases h

/-- A registration that asks for no name is refused by a finished context only. -/
theorem ofResource {w : PendingWrite} (hkind : o.loadedType? = none)
    (hrun : o.action.runOn c =
      if c.finished then (.error .alreadyFinished, c)
      else (.ok (), { c with pending := c.pending ++ [w] }))
    (h : o.action.runOn c = (.error e, c')) : o.Refuses c e c' := by
  refine ofName false "" { c with pending := c.pending ++ [w] } hkind ?_ nofun h
  rw [hrun]
  rfl

/-- An optimization loader has its type entered before the name of its unit is looked up. -/
theorem ofLoader {name kind : String} {body : LoaderBody}
    (h : (Operation.registerStaticOptimization name kind body).action.runOn c = (.error e, c')) :
    (Operation.registerStaticOptimization name kind body).Refuses c e c' := by
  rw [action, Generation.runOn_discard, Generation.runOn_registerStaticOptimization] at h
  dsimp only at h
  split_ifs at h with hfinished htaken
  · cases h
    refine .unchanged (.finished hfinished) fun _ hopen => ?_
    rw [hfinished] at hopen
    cases hopen
  · cases h
    have hopen : c.finished = false := Bool.eq_false_iff.2 hfinished
    exact .afterType (.ofHasUnit hopen rfl htaken) hopen rfl
  · cases h

end Refuses

/-- Whatever registration is refused in whatever state, it leaves everything as it was, but for the
type of an optimization loader whose name was taken. -/
theorem runOn_action_refuses {o : Operation} (ho : o.registers = true) {c c' : Context}
    {e : BuildError} (h : o.action.runOn c = (.error e, c')) : o.Refuses c e c' := by
  cases o with
  | registerUnit u =>
    refine .ofName _ _ (c.addUnit u) rfl ?_
      (fun hopen htaken => .ofHasUnit hopen rfl htaken) h
    rw [action, Generation.runOn_discard, Generation.runOn_registerUnit]
    split_ifs <;> rfl
  | registerStaticInitializer m =>
    refine .ofName _ _ _ rfl (Generation.runOn_registerStaticInitializer m c)
      (fun hopen htaken => .initializer m hopen rfl ?_) h
    simpa using htaken
  | registerStaticOptimization name kind body => exact .ofLoader h
  | registerResource path action =>
    exact .ofResource rfl (Generation.runOn_registerResource path action c) h
  | registerServiceImplementation service name =>
    exact .ofResource rfl (Generation.runOn_registerServiceImplementation service name c) h
  | writeServiceManifest service name =>
    exact .ofResource rfl (Generation.runOn_writeServiceManifest service name c) h
  | diagnose | excludeResource | requireBuildTimeInit | publishSubstitutes
  | publishDeducedEnvironment | markExecuted | finish => cases ho

/-- A loader whose name a unit has already. -/
theorem runOn_action_refuses_loader :
    let c : Context :=
      { space := "gen", profile := .jit, settings := {}, analyzer := ⟨{}, requirementsMet⟩
        application := {}, units := [{ space := "gen", name := "Loader" }]
        unitNames := .ofList ["gen.Loader"], buildTimeInit := .ofList ["a.Type"] }
    let o : Operation := .registerStaticOptimization "Loader" "x.Kind" { statements := [] }
    o.registers = true ∧ ∃ c', o.action.runOn c = (.error (.nameCollision "gen.Loader"), c') ∧
      o.Refuses c (.nameCollision "gen.Loader") c' ∧
      c'.buildTimeInit.toList = ["a.Type", "x.Kind"] := by
  intro c o
  have hrun : o.action.runOn c = (.error (.nameCollision "gen.Loader"),
      { c with buildTimeInit := c.buildTimeInit.insert "x.Kind" }) := rfl
  exact ⟨rfl, _, hrun, runOn_action_refuses rfl hrun, by decide +kernel⟩

/-- A registration that is refused can leave something behind, on a context that began with nothing
and had one unit registered. -/
theorem refused_loader_leaves_its_type :
    let start : Context :=
      { space := "gen", profile := .jit, settings := {}, analyzer := ⟨{}, requirementsMet⟩
        application := {} }
    let o : Operation := .registerStaticOptimization "Loader" "x.Kind" { statements := [] }
    let calls : List ContextCall := [.once (.registerUnit { space := "gen", name := "Loader" })]
    ∃ c c', (ContextCall.performAll calls).runOn start = (.ok (), c) ∧
      o.registers = true ∧ o.action.runOn c = (.error (.nameCollision "gen.Loader"), c') ∧
      c.buildTimeInit.toList = [] ∧ c'.buildTimeInit.toList = ["x.Kind"] := by
  intro start o calls
  exact ⟨_, _, rfl, rfl, rfl, by decide +kernel, by decide +kernel⟩

end Operation

end BuildAhead
