import BuildAhead.Building.Build
import BuildAhead.Proofs.Generation.Actions
import BuildAhead.Proofs.Generation.Noted

set_option autoImplicit false

/-!
# Building: the calls of modules

Which modules a build runs, in which order, and what each of them finds. The build is written down
once more so that every call of a module's work is noted; leaving the notes out gives back the build
itself, answer and files.
-/

namespace BuildAhead

/-- One call of a module's work: the context that it found, and how it ended. -/
structure Call where
  module : Module
  found : Context
  outcome : Except BuildError Unit

namespace Noted

/-- Runs the work of a module and notes the call. -/
def inModule (m : Module) : Noted Call Context Unit :=
  ExceptT.mk fun s =>
    ((m.generate.runOn s.1).1.mapError (BuildError.moduleFailed m.id), (m.generate.runOn s.1).2,
      s.2 ++ [⟨m, s.1, (m.generate.runOn s.1).1⟩])

/-- Runs modules in order and notes each call. -/
def runModules : List Module → Noted Call Context Unit
  | [] => return ()
  | m :: rest => do
    inModule m
    lift (Generation.markExecuted m.id)
    runModules rest

/-- Everything that a build does on its context, with the calls noted. -/
def runAll (modules : List Module) : Noted Call Context Unit := do
  runModules modules
  let _ ← lift EntryPoint.synthesize

namespace Erases

theorem inModule (m : Module) : Erases (inModule m) (Generation.inModule m) := by
  intro s calls
  rfl

theorem runModules (ms : List Module) : Erases (runModules ms) (Generation.runModules ms) := by
  induction ms with
  | nil => exact pure ()
  | cons m rest ih => exact (inModule m).bind fun _ => (lift _).bind fun _ => ih

theorem runAll (ms : List Module) : Erases (runAll ms) (Generation.runAll ms) :=
  (runModules ms).bind fun _ => (lift EntryPoint.synthesize).bind fun _ => pure ()

end Erases

end Noted

/-! ## The calls of a list of modules -/

/-- The calls that a run of modules makes, behind modules that ran to their end earlier, and how the
run ends. -/
inductive CallsOf : List String → List Module → List Call → Except BuildError Unit → Prop where
  | done (earlier : List String) : CallsOf earlier [] [] (.ok ())
  | failed {earlier : List String} {m : Module} {rest : List Module} {found : Context}
    {cause : BuildError} (hfound : found.executedModules = earlier) :
    CallsOf earlier (m :: rest) [⟨m, found, .error cause⟩] (.error (.moduleFailed m.id cause))
  | next {earlier : List String} {m : Module} {rest : List Module} {found : Context}
    {calls : List Call} {outcome : Except BuildError Unit}
    (hfound : found.executedModules = earlier)
    (hrest : CallsOf (earlier ++ [m.id]) rest calls outcome) :
    CallsOf earlier (m :: rest) (⟨m, found, .ok ()⟩ :: calls) outcome

namespace CallsOf

variable {earlier : List String} {ms : List Module} {calls : List Call}
  {outcome : Except BuildError Unit}

/-- Every call finds, as the modules that ran, the earlier ones and those called before it. -/
theorem found (h : CallsOf earlier ms calls outcome) :
    ∀ (i : Nat) (hi : i < calls.length), calls[i].found.executedModules =
      earlier ++ (calls.take i).map fun call => call.module.id := by
  induction h with
  | done earlier =>
    intro i hi
    exact absurd hi (Nat.not_lt_zero i)
  | failed hfound =>
    intro i hi
    have hzero : i = 0 := Nat.lt_one_iff.1 hi
    subst hzero
    simp [hfound]
  | next hfound _ ih =>
    intro i hi
    cases i with
    | zero => simp [hfound]
    | succ i =>
      have hlt := Nat.lt_of_succ_lt_succ hi
      simp [ih i hlt]

/-- The modules are called in order, up to where the run ends. -/
theorem modules_prefix (h : CallsOf earlier ms calls outcome) :
    calls.map Call.module <+: ms := by
  induction h with
  | done earlier => exact List.prefix_rfl
  | failed _ => simp
  | next _ _ ih => simpa using ih

/-- Only the last call may have failed. -/
theorem completed (h : CallsOf earlier ms calls outcome) :
    ∀ (i j : Nat) (hji : j < i) (hi : i < calls.length), calls[j].outcome = .ok () := by
  induction h with
  | done earlier =>
    intro i j _ hi
    exact absurd hi (Nat.not_lt_zero i)
  | failed _ =>
    intro i j hji hi
    have hzero : i = 0 := Nat.lt_one_iff.1 hi
    omega
  | next _ _ ih =>
    intro i j hji hi
    cases j with
    | zero => rfl
    | succ j =>
      cases i with
      | zero => omega
      | succ i => exact ih i j (Nat.lt_of_succ_lt_succ hji) (Nat.lt_of_succ_lt_succ hi)

/-- A run that succeeds has called every module, with success. -/
theorem of_ok (h : CallsOf earlier ms calls outcome) (hok : outcome = .ok ()) :
    calls.map Call.module = ms ∧ ∀ call ∈ calls, call.outcome = .ok () := by
  induction h with
  | done earlier => simp
  | failed _ => cases hok
  | next _ _ ih =>
    obtain ⟨hmodules, hall⟩ := ih hok
    refine ⟨by rw [List.map_cons, hmodules], ?_⟩
    intro call hcall
    rcases List.mem_cons.1 hcall with rfl | hcall
    · rfl
    · exact hall call hcall

/-- A run that fails has called the modules up to one of them, and this one failed. -/
theorem of_error (h : CallsOf earlier ms calls outcome) {e : BuildError}
    (herror : outcome = .error e) :
    ∃ before m rest completed found cause,
      e = .moduleFailed m.id cause ∧ ms = before ++ m :: rest ∧
      calls = completed ++ [⟨m, found, .error cause⟩] ∧
      completed.map Call.module = before ∧ ∀ call ∈ completed, call.outcome = .ok () := by
  induction h with
  | done earlier => cases herror
  | @failed earlier m rest found cause _ =>
    cases herror
    exact ⟨[], m, rest, [], found, cause, rfl, rfl, rfl, rfl, by simp⟩
  | @next earlier m rest found calls outcome _ _ ih =>
    obtain ⟨before, m', rest', completed, found', cause, he, hms, hcalls, hmap, hok⟩ := ih herror
    refine ⟨m :: before, m', rest', ⟨m, found, .ok ()⟩ :: completed, found', cause, he, ?_, ?_,
      ?_, ?_⟩
    · rw [hms, List.cons_append]
    · rw [hcalls, List.cons_append]
    · rw [List.map_cons, hmap]
    · intro call hcall
      rcases List.mem_cons.1 hcall with rfl | hcall
      · rfl
      · exact hok call hcall

end CallsOf

/-- Modules that are made of operations are called in order, each on what the others left, and the
record of the modules that ran is kept by the build alone. -/
theorem Noted.run_runModules (ms : List Module)
    (hops : ∀ m ∈ ms, m.generate.ByOperations) (c : Context) (earlier : List Call) :
    ∃ (calls : List Call) (outcome : Except BuildError Unit) (after : Context),
      (Noted.runModules ms).run.run (c, earlier) = (outcome, after, earlier ++ calls) ∧
      CallsOf c.executedModules ms calls outcome ∧
      after.space = c.space ∧ after.finished = c.finished ∧
      (outcome = .ok () → after.executedModules = c.executedModules ++ ms.map Module.id) := by
  induction ms generalizing c earlier with
  | nil => exact ⟨[], .ok (), c, by simp [Noted.runModules]; rfl, .done _, rfl, rfl, by simp⟩
  | cons m rest ih =>
    have hgrows := (hops m List.mem_cons_self).growing c
    rcases hrun : m.generate.runOn c with ⟨cause | ⟨⟩, c₁⟩
    · rw [hrun] at hgrows
      have hcall : (Noted.inModule m).run.run (c, earlier) =
          (.error (.moduleFailed m.id cause), c₁, earlier ++ [⟨m, c, .error cause⟩]) := by
        show (Except.mapError _ (m.generate.runOn c).1, (m.generate.runOn c).2,
          earlier ++ [⟨m, c, (m.generate.runOn c).1⟩]) = _
        rw [hrun]
        rfl
      refine ⟨[⟨m, c, .error cause⟩], .error (.moduleFailed m.id cause), c₁, ?_, .failed rfl,
        hgrows.space, hgrows.finished, ?_⟩
      · simp only [Noted.runModules, run_bind, hcall]
      · intro hok
        cases hok
    · rw [hrun] at hgrows
      have hcall : (Noted.inModule m).run.run (c, earlier) =
          (.ok (), c₁, earlier ++ [⟨m, c, .ok ()⟩]) := by
        show (Except.mapError _ (m.generate.runOn c).1, (m.generate.runOn c).2,
          earlier ++ [⟨m, c, (m.generate.runOn c).1⟩]) = _
        rw [hrun]
        rfl
      have hmark : (Noted.lift (Generation.markExecuted m.id)).run.run
          (c₁, earlier ++ [⟨m, c, .ok ()⟩]) =
          (.ok (), { c₁ with executedModules := c₁.executedModules ++ [m.id] },
            earlier ++ [⟨m, c, .ok ()⟩]) := rfl
      obtain ⟨calls, outcome, after, hrest, hcalls, hspace, hfinished, hexecuted⟩ :=
        ih (fun n hn => hops n (List.mem_cons_of_mem _ hn))
          { c₁ with executedModules := c₁.executedModules ++ [m.id] }
          (earlier ++ [⟨m, c, .ok ()⟩])
      rw [List.append_assoc, List.singleton_append] at hrest
      refine ⟨⟨m, c, .ok ()⟩ :: calls, outcome, after, ?_, ?_, ?_, ?_, ?_⟩
      · simp only [Noted.runModules, run_bind, hcall, hmark]
        exact hrest
      · refine .next rfl ?_
        rw [← hgrows.executedModules]
        exact hcalls
      · rw [hspace]
        exact hgrows.space
      · rw [hfinished]
        exact hgrows.finished
      · intro hok
        rw [hexecuted hok]
        show (c₁.executedModules ++ [m.id]) ++ rest.map Module.id = _
        rw [hgrows.executedModules, List.append_assoc, List.map_cons, List.singleton_append]

/-- What follows the work of the modules: an error ends the build, otherwise the deferred writes are
run. -/
def Generation.flush (outcome : Except BuildError Unit) (context : Context)
    (resources : Files.Path) : Writing GenerationOutput := do
  outcome
  let (outcome, context, tree) := context.finish resources (← get)
  set tree
  outcome
  return context.output

namespace Registry

/-- `Registry.generate`, with the calls noted. -/
def notedGenerate (r : Registry) (input : BuildInput) (resources : Files.Path) :
    Noted Call Files.Tree GenerationOutput := do
  let (context, modules) ← r.prepare input
  let (outcome, context) ← (Noted.runAll modules).inside context
  Noted.lift (Generation.flush outcome context resources)

/-- `Registry.build`, with the calls noted. -/
def notedBuild (r : Registry) (input : BuildInput) (folder : OutputFolder) (generatedAt : String) :
    Noted Call Files.Tree RunSummary := do
  let output ← r.notedGenerate input folder.resources
  let summary := RunSummary.ofOutput output (output.profile.getD .jit) generatedAt
  Noted.lift (folder.deliver output summary)
  return summary

theorem erases_notedGenerate (r : Registry) (input : BuildInput) (resources : Files.Path) :
    Noted.Erases (r.notedGenerate input resources) (r.generate input resources) := by
  refine (Noted.Erases.ofExcept (r.prepare input)).bind ?_
  intro hgiven
  obtain ⟨context, modules⟩ := hgiven
  intro tree calls
  have hall := Noted.Erases.runAll modules context calls
  simp only [← hall]
  rfl

/-- Without its notes, the noted build is the build. -/
theorem erases_notedBuild (r : Registry) (input : BuildInput) (folder : OutputFolder)
    (generatedAt : String) :
    Noted.Erases (r.notedBuild input folder generatedAt) (r.build input folder generatedAt) :=
  (r.erases_notedGenerate input folder.resources).bind fun _ =>
    (Noted.Erases.lift _).bind fun _ => Noted.Erases.pure _

end Registry

end BuildAhead
