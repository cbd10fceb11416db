import BuildAhead.Generation.Context

set_option autoImplicit false

/-!
# Generation: running actions

What an action answers and what it leaves behind, as one function of the context that it finds. Each
operation on the context has one equation here, with its failures, and a sequence of actions is
taken apart by `runOn_bind`; after that no proof unfolds an operation.
-/

namespace BuildAhead

/-- The second of two actions is run when the first succeeds, on the state that this leaves. -/
theorem run_bind {σ α β : Type} (x : ExceptT BuildError (StateM σ) α)
    (f : α → ExceptT BuildError (StateM σ) β) (s : σ) :
    (x >>= f).run.run s =
      match x.run.run s with
      | (.ok a, s') => (f a).run.run s'
      | (.error e, s') => (.error e, s') := by
  have hsequence : (x >>= f).run.run s =
      StateT.run (ExceptT.bindCont f (x.run.run s).1) (x.run.run s).2 := rfl
  rw [hsequence]
  rcases StateT.run (ExceptT.run x) s with ⟨e | a, s'⟩ <;> rfl

namespace Generation

variable {α β : Type}

/-- What an action answers when it is run on a context, and the context afterwards. -/
def runOn (x : Generation α) (c : Context) : Except BuildError α × Context := x.run.run c

/-! ## Sequences of actions -/

@[simp] theorem runOn_pure (a : α) (c : Context) : (pure a : Generation α).runOn c = (.ok a, c) :=
  rfl

@[simp] theorem runOn_throw (e : BuildError) (c : Context) :
    (throw e : Generation α).runOn c = (.error e, c) := rfl

@[simp] theorem runOn_get (c : Context) : (get : Generation Context).runOn c = (.ok c, c) := rfl

@[simp] theorem runOn_modify (f : Context → Context) (c : Context) :
    (modify f : Generation Unit).runOn c = (.ok (), f c) := rfl

theorem runOn_bind (x : Generation α) (f : α → Generation β) (c : Context) :
    (x >>= f).runOn c =
      match x.runOn c with
      | (.ok a, c') => (f a).runOn c'
      | (.error e, c') => (.error e, c') := by
  unfold runOn
  rw [run_bind]
  rcases StateT.run (ExceptT.run x) c with ⟨e | a, c'⟩ <;> rfl

theorem runOn_map (f : α → β) (x : Generation α) (c : Context) :
    (f <$> x).runOn c =
      match x.runOn c with
      | (.ok a, c') => (.ok (f a), c')
      | (.error e, c') => (.error e, c') := by
  rw [← bind_pure_comp, runOn_bind]
  rfl

/-- An action whose answer is thrown away. -/
theorem runOn_discard (x : Generation α) (c : Context) :
    (x >>= fun _ => pure ()).runOn c = ((x.runOn c).1.map fun _ => (), (x.runOn c).2) := by
  rw [runOn_bind]
  rcases x.runOn c with ⟨e | a, c'⟩ <;> rfl

theorem runOn_tryCatch (x : Generation α) (handler : BuildError → Generation α) (c : Context) :
    (tryCatch x handler).runOn c =
      match x.runOn c with
      | (.ok a, c') => (.ok a, c')
      | (.error e, c') => (handler e).runOn c' := by
  unfold runOn ExceptT.run StateT.run
  simp only [tryCatch, tryCatchThe, MonadExceptOf.tryCatch, ExceptT.tryCatch, ExceptT.mk, bind,
    StateT.bind]
  rcases x c with ⟨e | a, c'⟩ <;> rfl

/-- A sequence succeeds exactly when its parts do, one after the other. -/
theorem runOn_bind_eq_ok_iff {x : Generation α} {f : α → Generation β} {c c' : Context} {b : β} :
    (x >>= f).runOn c = (.ok b, c') ↔
      ∃ a c₁, x.runOn c = (.ok a, c₁) ∧ (f a).runOn c₁ = (.ok b, c') := by
  rw [runOn_bind]
  cases hx : x.runOn c with
  | mk result c₁ =>
    cases result with
    | error e =>
      constructor
      · intro h
        cases h
      · intro hgiven
        obtain ⟨a, c₂, h, -⟩ := hgiven
        cases h
    | ok a =>
      constructor
      · intro h
        exact ⟨a, c₁, rfl, h⟩
      · intro hgiven
        obtain ⟨a', c₂, h, hf⟩ := hgiven
        cases h
        exact hf

/-- A sequence fails exactly when its first part does, or the second does behind it. -/
theorem runOn_bind_eq_error_iff {x : Generation α} {f : α → Generation β} {c c' : Context}
    {e : BuildError} :
    (x >>= f).runOn c = (.error e, c') ↔
      x.runOn c = (.error e, c') ∨
        ∃ a c₁, x.runOn c = (.ok a, c₁) ∧ (f a).runOn c₁ = (.error e, c') := by
  rw [runOn_bind]
  rcases hx : x.runOn c with ⟨e' | a, c₁⟩
  · constructor
    · intro h
      cases h
      exact .inl rfl
    · rintro (h | ⟨a, c₂, h, -⟩)
      · cases h
        rfl
      · cases h
  · constructor
    · intro h
      exact .inr ⟨a, c₁, rfl, h⟩
    · rintro (h | ⟨a', c₂, h, hf⟩)
      · cases h
      · cases h
        exact hf

/-! ## Operations on the context -/

theorem runOn_ensureOpen (c : Context) :
    ensureOpen.runOn c = if c.finished then (.error .alreadyFinished, c) else (.ok (), c) := by
  simp only [ensureOpen, runOn_bind, runOn_get]
  split <;> rfl

@[simp] theorem runOn_diagnose (category message : String) (c : Context) :
    (diagnose category message).runOn c =
      (.ok (), { c with diagnostics := c.diagnostics.add category message }) := rfl

theorem runOn_registerUnit (u : CodeUnit) (c : Context) :
    (registerUnit u).runOn c =
      if c.finished then (.error .alreadyFinished, c)
      else if c.hasUnit u.qualifiedName then (.error (.nameCollision u.qualifiedName), c)
      else (.ok u.unitName, c.addUnit u) := by
  cases hf : c.finished with
  | true => simp [registerUnit, runOn_bind, runOn_ensureOpen, hf]
  | false =>
    cases hu : c.hasUnit u.qualifiedName with
    | true => simp [registerUnit, runOn_bind, runOn_ensureOpen, hf, hu]
    | false => simp [registerUnit, runOn_bind, runOn_map, runOn_ensureOpen, hf, hu]

theorem runOn_registerStaticInitializer (m : Code.Method) (c : Context) :
    (registerStaticInitializer m).runOn c =
      if c.finished then (.error .alreadyFinished, c)
      else if c.staticInitializers.any fun n => n.name == m.name then
        (.error (.nameCollision ("static initializer " ++ m.name)), c)
      else (.ok (), { c with staticInitializers := c.staticInitializers ++ [m] }) := by
  simp only [registerStaticInitializer, runOn_bind, runOn_ensureOpen]
  cases hf : c.finished with
  | true => rfl
  | false =>
    simp only [Bool.false_eq_true, if_false, runOn_get]
    cases hm : c.staticInitializers.any fun n => n.name == m.name with
    | true => rfl
    | false => simp only [Bool.false_eq_true, if_false, runOn_modify, hf]

theorem runOn_registerResource (path : String) (action : FinishView → FileAction) (c : Context) :
    (registerResource path action).runOn c =
      if c.finished then (.error .alreadyFinished, c)
      else (.ok (), { c with pending := c.pending ++ [⟨path, action⟩] }) := by
  cases hf : c.finished with
  | true => simp [registerResource, runOn_bind, runOn_ensureOpen, hf]
  | false => simp [registerResource, runOn_bind, runOn_ensureOpen, hf]

theorem runOn_registerServiceImplementation (service name : String) (c : Context) :
    (registerServiceImplementation service name).runOn c =
      if c.finished then (.error .alreadyFinished, c)
      else
        (.ok (), { c with pending := c.pending ++
          [⟨Names.serviceManifest service, fun _ => .append (manifestLine c.space name)⟩] }) := by
  rw [registerServiceImplementation, runOn_bind, runOn_get]
  exact runOn_registerResource _ _ c

theorem runOn_writeServiceManifest (service name : String) (c : Context) :
    (writeServiceManifest service name).runOn c =
      if c.finished then (.error .alreadyFinished, c)
      else
        (.ok (), { c with pending := c.pending ++
          [⟨Names.serviceManifest service, fun _ => .replace (manifestLine c.space name)⟩] }) := by
  rw [writeServiceManifest, runOn_bind, runOn_get]
  exact runOn_registerResource _ _ c

@[simp] theorem runOn_excludeResource (path : String) (c : Context) :
    (excludeResource path).runOn c =
      (.ok (), { c with excludedResources := c.excludedResources.insert path }) := rfl

@[simp] theorem runOn_requireBuildTimeInit (name : String) (c : Context) :
    (requireBuildTimeInit name).runOn c =
      (.ok (), { c with buildTimeInit := c.buildTimeInit.insert name }) := rfl

@[simp] theorem runOn_publishSubstitutes (s : Substitutes) (c : Context) :
    (publishSubstitutes s).runOn c = (.ok (), { c with substitutes := some s }) := rfl

@[simp] theorem runOn_publishDeducedEnvironment (deduce : Bool) (c : Context) :
    (publishDeducedEnvironment deduce).runOn c =
      (.ok (), { c with deducedEnvironment := some deduce }) := rfl

@[simp] theorem runOn_markExecuted (id : String) (c : Context) :
    (markExecuted id).runOn c =
      (.ok (), { c with executedModules := c.executedModules ++ [id] }) := rfl

/-- An optimization loader is registered, with its type for the build and its line in the manifest,
when the context is open and the name of its unit is new. -/
theorem runOn_registerStaticOptimization (name kind : String) (body : LoaderBody) (c : Context) :
    (registerStaticOptimization name kind body).runOn c =
      let unit := loaderUnit c.space name kind body
      let c' := { c with buildTimeInit := c.buildTimeInit.insert kind }
      if c.finished then (.error .alreadyFinished, c)
      else if c.hasUnit unit.qualifiedName then
        (.error (.nameCollision unit.qualifiedName), c')
      else
        (.ok unit.unitName,
          { c'.addUnit unit with
            pending := c.pending ++ [⟨Names.serviceManifest Runtime.optimizationLoader,
              fun _ => .append (manifestLine c.space name)⟩] }) := by
  simp only [registerStaticOptimization, runOn_bind, runOn_ensureOpen]
  cases hf : c.finished with
  | true => rfl
  | false =>
    simp only [Bool.false_eq_true, if_false, runOn_requireBuildTimeInit, runOn_get,
      runOn_registerUnit, hf, Context.hasUnit]
    by_cases hu : c.unitNames.contains (loaderUnit c.space name kind body).qualifiedName = true
    · simp only [hu, if_true]
    · simp only [hu, Bool.false_eq_true, if_false, runOn_registerServiceImplementation,
        Context.addUnit, runOn_pure]

/-- The units that an action registered are those behind the units that it found. -/
theorem runOn_trackUnits (action : Generation α) (c : Context) :
    (trackUnits action).runOn c =
      match action.runOn c with
      | (.ok a, c') => (.ok (a, c'.units.drop c.units.length), c')
      | (.error e, c') => (.error e, c') := by
  simp only [trackUnits, runOn_bind, runOn_get]
  cases action.runOn c with
  | mk result c' => cases result <;> rfl

end Generation

end BuildAhead
