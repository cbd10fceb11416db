import BuildAhead.Proofs.Building.Calls
import BuildAhead.Proofs.Generation.Flushing
import BuildAhead.Proofs.Modules.Scheduling

set_option autoImplicit false

/-!
# Building: how a build ends

A build that fails before its writes leaves the files as they were, and its error tells which
modules were called: none when the schedule cannot be made, those up to the one that failed when a
module fails, all of them when the name of the entry point is taken. A build that succeeds has
called every module of the schedule, and its summary says so.
-/

namespace BuildAhead

/-! ## Failures of writing -/

namespace Writing

variable {α β : Type}

/-- Every error of an action is about a file that cannot be written. -/
def FailsInWriting (x : Writing α) : Prop :=
  ∀ tree e after, x.run.run tree = (.error e, after) → ∃ path reason, e = .resourceWrite path reason

theorem failsInWriting_pure (a : α) : FailsInWriting (pure a) := by
  intro tree e after hrun
  cases hrun

theorem FailsInWriting.bind {x : Writing α} {f : α → Writing β} (hx : FailsInWriting x)
    (hf : ∀ a, FailsInWriting (f a)) : FailsInWriting (x >>= f) := by
  intro tree e after hrun
  rw [run_bind] at hrun
  rcases hfirst : StateT.run (ExceptT.run x) tree with ⟨e' | a, tree'⟩
  · rw [hfirst] at hrun
    cases hrun
    exact hx tree e after hfirst
  · rw [hfirst] at hrun
    exact hf a tree' e after hrun

theorem failsInWriting_step (path : Files.Path)
    (f : Files.Tree → Except Files.Fault Files.Tree) : FailsInWriting (step path f) := by
  intro tree e after hrun
  have hget : StateT.run (ExceptT.run (get : Writing Files.Tree)) tree = (.ok tree, tree) := rfl
  unfold step at hrun
  rw [run_bind, hget] at hrun
  simp only at hrun
  cases hf : f tree with
  | ok tree' =>
    rw [hf] at hrun
    cases hrun
  | error fault =>
    rw [hf] at hrun
    cases hrun
    exact ⟨path, fault.message, rfl⟩

theorem failsInWriting_writeFile (path : Files.Path) (text : String) :
    FailsInWriting (writeFile path text) := by
  unfold writeFile
  cases Files.Path.parent? path with
  | none => exact failsInWriting_step path _
  | some above =>
    exact (failsInWriting_step above _).bind fun _ => failsInWriting_step path _

theorem failsInWriting_deliver (f : OutputFolder) (o : GenerationOutput) (s : RunSummary) :
    FailsInWriting (f.deliver o s) := by
  unfold OutputFolder.deliver OutputFolder.deliverWith
  induction f.files .standard o s with
  | nil => exact failsInWriting_pure ()
  | cons file rest ih => exact (failsInWriting_writeFile file.1 file.2).bind fun _ => ih

end Writing

/-- A folder that cannot be made is reported as a failed write. -/
theorem PendingWrite.makeParent_error {tree : Files.Tree} {target : Files.Path} {e : BuildError}
    (hparent : makeParent tree target = .error e) : ∃ path reason, e = .resourceWrite path reason := by
  unfold makeParent at hparent
  cases habove : Files.Path.parent? target with
  | none =>
    rw [habove] at hparent
    cases hparent
  | some above =>
    rw [habove] at hparent
    simp only at hparent
    cases hmake : tree.makeFolders above with
    | ok tree' =>
      rw [hmake] at hparent
      cases hparent
    | error fault =>
      rw [hmake] at hparent
      cases hparent
      exact ⟨above, fault.message, rfl⟩

theorem PendingWrite.run_error {view : FinishView} {folder : Files.Path}
    {touched : List (Bool × List String)} {tree after : Files.Tree} {w : PendingWrite}
    {e : BuildError} (hrun : run view folder touched tree w = (.error e, after)) :
    ∃ path reason, e = .resourceWrite path reason := by
  have hgoes := goes_notedRun view folder touched tree w
  rw [notedRun_fst, hrun] at hgoes
  generalize (notedRun view folder touched tree w).2 = noted at hgoes
  cases hgoes with
  | folderAbove unmade => exact makeParent_error unmade
  | earlierFile _ _ _ | failed _ _ => exact ⟨_, _, rfl⟩

/-- The deferred writes fail in writing only. -/
theorem PendingWrite.runAll_error {view : FinishView} {folder : Files.Path}
    {touched : List (Bool × List String)} {tree after : Files.Tree} {ws : List PendingWrite}
    {e : BuildError} (hrun : runAll view folder touched tree ws = (.error e, after)) :
    ∃ path reason, e = .resourceWrite path reason := by
  induction ws generalizing touched tree with
  | nil => simp [runAll] at hrun
  | cons w rest ih =>
    unfold runAll at hrun
    rcases hfirst : run view folder touched tree w with ⟨e' | ⟨⟩, tree'⟩
    · simp only [hfirst] at hrun
      cases hrun
      exact run_error hfirst
    · simp only [hfirst] at hrun
      exact ih hrun

/-! ## What follows the work of the modules -/

namespace Generation

/-- Behind modules that succeeded, on an open context, the deferred writes are run. -/
theorem run_flush {c : Context} (hopen : c.finished = false) (resources : Files.Path)
    (tree : Files.Tree) :
    (flush (.ok ()) c resources).run.run tree =
      ((PendingWrite.runAll c.view resources [] tree c.pending).1.map fun _ => c.output,
        (PendingWrite.runAll c.view resources [] tree c.pending).2) := by
  have hfinish : c.finish resources tree =
      ((PendingWrite.runAll c.view resources [] tree c.pending).1,
        { c with pending := [], finished := true },
        (PendingWrite.runAll c.view resources [] tree c.pending).2) := by
    simp [Context.finish, hopen]
  show StateT.run (ExceptT.run (do
    (liftM (c.finish resources tree).1 : Writing Unit)
    return (c.finish resources tree).2.1.output)) (c.finish resources tree).2.2 = _
  rw [hfinish]
  rcases PendingWrite.runAll c.view resources [] tree c.pending with ⟨e | ⟨⟩, tree'⟩ <;> rfl

/-- On an open context the deferred writes are run, and they leave its record of modules as it
is. -/
theorem run_flush_ok {c : Context} (hopen : c.finished = false) (resources : Files.Path)
    (tree : Files.Tree) :
    ∃ outcome after, (flush (.ok ()) c resources).run.run tree = (outcome, after) ∧
      (∀ e, outcome = .error e → ∃ path reason, e = .resourceWrite path reason) ∧
      ∀ output, outcome = .ok output → output.executedModules = c.executedModules := by
  refine ⟨_, _, run_flush hopen resources tree, ?_, ?_⟩
  · intro e he
    rcases hall : PendingWrite.runAll c.view resources [] tree c.pending with ⟨e' | ⟨⟩, tree'⟩
    · rw [hall] at he
      cases he
      exact PendingWrite.runAll_error hall
    · rw [hall] at he
      cases he
  · intro output houtput
    rcases hall : PendingWrite.runAll c.view resources [] tree c.pending with ⟨e' | ⟨⟩, tree'⟩
    · rw [hall] at houtput
      cases houtput
    · rw [hall] at houtput
      cases houtput
      rfl

/-- On an open context the entry point is made unless its name is taken. -/
theorem runOn_synthesize {c : Context} (hopen : c.finished = false) :
    ∃ after, after.finished = false ∧ after.executedModules = c.executedModules ∧
      (EntryPoint.synthesize.runOn c =
          (.error (.nameCollision (Names.qualify c.space EntryPoint.configurerName)), after) ∨
        ∃ unitName, EntryPoint.synthesize.runOn c = (.ok unitName, after)) := by
  have hname : (EntryPoint.configurer c).qualifiedName =
      Names.qualify c.space EntryPoint.configurerName := rfl
  have hadded : (c.addUnit (EntryPoint.configurer c)).finished = false := hopen
  simp only [EntryPoint.synthesize, runOn_bind, runOn_get, runOn_registerUnit, hopen,
    Bool.false_eq_true, if_false, hname]
  cases c.hasUnit (Names.qualify c.space EntryPoint.configurerName) with
  | true => exact ⟨c, hopen, rfl, .inl rfl⟩
  | false =>
    simp only [Bool.false_eq_true, if_false, runOn_registerServiceImplementation, hadded,
      runOn_pure]
    refine ⟨_, ?_, ?_, .inr ⟨_, rfl⟩⟩
    · rfl
    · rfl

end Generation

namespace Registry

/-! ## Before the work of the modules -/

/-- The modules that a build runs, in order. -/
def Schedules (r : Registry) (input : BuildInput) (modules : List Module) : Prop :=
  ∃ profile, input.settings.profile = .ok profile ∧ r.schedule profile input.settings = .ok modules

/-- The errors that show before a module is called. -/
def IsEarlyError : BuildError → Prop
  | .missingKey key => key = Settings.packageKey
  | .unknownProfile _ | .unknownDependency _ _ | .cyclicDependency _ => True
  | _ => False

theorem order_error {r : Registry} {ids : List String} {e : BuildError}
    (horder : r.order ids = .error e) : IsEarlyError e := by
  obtain ⟨cycle, rfl, -⟩ := order_eq_error horder
  trivial

theorem validate_error {r : Registry} {e : BuildError} (hvalidate : r.validate = .error e) :
    IsEarlyError e := by
  unfold validate at hvalidate
  split at hvalidate
  · cases hvalidate
    trivial
  · rcases bind_eq_error hvalidate with horder | ⟨order, -, hrest⟩
    · exact order_error horder
    · cases hrest

theorem schedule_error {r : Registry} {profile : Profile} {s : Settings} {e : BuildError}
    (hschedule : r.schedule profile s = .error e) : IsEarlyError e := by
  unfold schedule ordered at hschedule
  rcases bind_eq_error hschedule with hvalidate | ⟨u, -, hrest⟩
  · exact validate_error hvalidate
  · rcases bind_eq_error hrest with horder | ⟨order, -, hreturn⟩
    · exact order_error horder
    · cases hreturn

theorem prepare_error {r : Registry} {input : BuildInput} {e : BuildError}
    (hprepare : r.prepare input = .error e) : IsEarlyError e := by
  unfold prepare at hprepare
  rcases bind_eq_error hprepare with hpackage | ⟨space, -, hrest⟩
  · unfold Settings.require at hpackage
    split at hpackage
    · split at hpackage
      · cases hpackage
        exact rfl
      · cases hpackage
    · cases hpackage
      exact rfl
  · rcases bind_eq_error hrest with hprofile | ⟨profile, -, hrest⟩
    · unfold Settings.profile at hprofile
      split at hprofile
      · cases hprofile
      · split at hprofile
        · cases hprofile
        · cases hprofile
          trivial
    · rcases bind_eq_error hrest with hschedule | ⟨modules, -, hreturn⟩
      · exact schedule_error hschedule
      · cases hreturn

/-- A build begins on an open context in which no module has run. -/
theorem prepare_ok {r : Registry} {input : BuildInput} {c : Context} {modules : List Module}
    (hprepare : r.prepare input = .ok (c, modules)) :
    r.Schedules input modules ∧ input.settings.require Settings.packageKey = .ok c.space ∧
      c.executedModules = [] ∧ c.finished = false := by
  unfold prepare at hprepare
  obtain ⟨space, hspace, hrest⟩ := bind_eq_ok hprepare
  obtain ⟨profile, hprofile, hrest⟩ := bind_eq_ok hrest
  obtain ⟨scheduled, hschedule, hreturn⟩ := bind_eq_ok hrest
  cases hreturn
  exact ⟨⟨profile, hprofile, hschedule⟩, hspace, rfl, rfl⟩

/-! ## The whole build -/

/-- These modules were called, in this order, and each succeeded. -/
structure AllCompleted (modules : List Module) (calls : List Call) : Prop where
  modules : calls.map Call.module = modules
  ok : ∀ call ∈ calls, call.outcome = .ok ()

/-- How the work of the modules, with the entry point behind it, ends. -/
theorem run_notedRunAll {modules : List Module} (hops : ∀ m ∈ modules, m.generate.ByOperations)
    {c : Context} (hopen : c.finished = false) :
    ∃ outcome after calls result,
      (Noted.runAll modules).run.run (c, []) = (outcome, after, calls) ∧
      CallsOf c.executedModules modules calls result ∧ after.finished = false ∧
      ((∃ e, result = .error e ∧ outcome = .error e) ∨
        (result = .ok () ∧
          outcome = .error (.nameCollision (Names.qualify c.space EntryPoint.configurerName))) ∨
        (result = .ok () ∧ outcome = .ok () ∧
          after.executedModules = c.executedModules ++ modules.map Module.id)) := by
  obtain ⟨calls, result, after, hrun, hcalls, hspace, hfinished, hexecuted⟩ :=
    Noted.run_runModules modules hops c []
  rw [List.nil_append] at hrun
  have hopen' : after.finished = false := hfinished.trans hopen
  cases result with
  | error e =>
    refine ⟨.error e, after, calls, .error e, ?_, hcalls, hopen', .inl ⟨e, rfl, rfl⟩⟩
    simp only [Noted.runAll, run_bind, hrun]
  | ok u =>
    obtain ⟨after', hopen'', hexecuted', hsynthesize⟩ := Generation.runOn_synthesize hopen'
    have hlift : (Noted.lift EntryPoint.synthesize).run.run (after, calls) =
        ((EntryPoint.synthesize.runOn after).1, (EntryPoint.synthesize.runOn after).2, calls) :=
      rfl
    rcases hsynthesize with hcollision | ⟨unitName, hok⟩
    · rw [hcollision] at hlift
      refine ⟨_, after', calls, .ok (), ?_, hcalls, hopen'', .inr (.inl ⟨rfl, rfl⟩)⟩
      simp only [Noted.runAll, run_bind, hrun, hlift, hspace]
    · rw [hok] at hlift
      refine ⟨.ok (), after', calls, .ok (), ?_, hcalls, hopen'', .inr (.inr ⟨rfl, rfl, ?_⟩)⟩
      · simp only [Noted.runAll, run_bind, hrun, hlift]
        rfl
      · rw [hexecuted', hexecuted rfl]

/-- What the error of a build tells about the calls of its modules. -/
def ErrorTells (r : Registry) (input : BuildInput) (calls : List Call) : BuildError → Prop
  | .missingKey key => key = Settings.packageKey ∧ calls = []
  | .unknownProfile _ | .unknownDependency _ _ | .cyclicDependency _ => calls = []
  | .moduleFailed id cause => ∃ before m rest completed found,
    r.Schedules input (before ++ m :: rest) ∧ m.id = id ∧ AllCompleted before completed ∧
      calls = completed ++ [⟨m, found, .error cause⟩]
  | .nameCollision name => ∃ space modules,
    input.settings.require Settings.packageKey = .ok space ∧
      name = Names.qualify space EntryPoint.configurerName ∧
      r.Schedules input modules ∧ AllCompleted modules calls
  | .resourceWrite _ _ => ∃ modules, r.Schedules input modules ∧ AllCompleted modules calls
  | _ => False

theorem errorTells_of_isEarlyError {r : Registry} {input : BuildInput} {e : BuildError}
    (hearly : IsEarlyError e) : ErrorTells r input [] e := by
  cases e with
  | missingKey key => exact ⟨hearly, rfl⟩
  | unknownProfile name => rfl
  | unknownDependency id dependency => rfl
  | cyclicDependency cycle => rfl
  | _ => cases hearly

/-- What can be said of a build that has ended, from its answer, the files and the calls. -/
structure EndsInOrder (r : Registry) (input : BuildInput) (tree : Files.Tree)
    (outcome : Except BuildError RunSummary) (after : Files.Tree) (calls : List Call) : Prop where
  /-- no module stands in a schedule twice -/
  distinct : ∀ modules, r.Schedules input modules → (modules.map Module.id).Nodup
  /-- a module finds, as the modules that ran, exactly those called before it -/
  found : ∀ (i : Nat) (hi : i < calls.length), calls[i].found.executedModules =
    (calls.take i).map fun call => call.module.id
  /-- a module is called when all its scheduled dependencies have been called and succeeded -/
  dependencies : ∀ modules, r.Schedules input modules → ∀ (i : Nat) (hi : i < calls.length),
    ∀ n ∈ modules, n.id ∈ calls[i].module.descriptor.dependencies →
      ∃ call ∈ calls.take i, call.module = n ∧ call.outcome = .ok ()
  /-- a build that fails before its writes leaves the files as they were -/
  untouched : ∀ e, outcome = .error e → (∀ path reason, e ≠ .resourceWrite path reason) →
    after = tree
  error : ∀ e, outcome = .error e → ErrorTells r input calls e
  ok : ∀ summary, outcome = .ok summary → ∃ modules, r.Schedules input modules ∧
    AllCompleted modules calls ∧ summary.executedModules = modules.map Module.id

/-! ### The schedule and the calls -/

theorem Schedules.unique {r : Registry} {input : BuildInput} {a b : List Module}
    (ha : r.Schedules input a) (hb : r.Schedules input b) : a = b := by
  obtain ⟨profile, hprofile, hrun⟩ := ha
  obtain ⟨profile', hprofile', hrun'⟩ := hb
  rw [hprofile] at hprofile'
  cases hprofile'
  rw [hrun] at hrun'
  exact Except.ok.inj hrun'

theorem Holds.runsInOrder_of_schedules {r : Registry} {ms modules : List Module} (h : r.Holds ms)
    {input : BuildInput} (hschedules : r.Schedules input modules) :
    ∃ wanted, RunsInOrder ms wanted modules := by
  obtain ⟨profile, -, hrun⟩ := hschedules
  exact ⟨_, (h.ordered_eq_ok_iff.1 hrun).2.inOrder⟩

theorem Holds.schedule_distinct {r : Registry} {ms modules : List Module} (h : r.Holds ms)
    {input : BuildInput} (hschedules : r.Schedules input modules) :
    (modules.map Module.id).Nodup := by
  obtain ⟨wanted, hrun⟩ := h.runsInOrder_of_schedules hschedules
  have hperm := (h.runsInOrder_iff.1 hrun).2.perm
  exact hperm.nodup_iff.2 (nodup_of_ascending (h.selected_ascending wanted))

/-- In a schedule a dependency stands in front of the modules that need it, so its call comes
first. -/
theorem Holds.dependency_called {r : Registry} {ms modules : List Module} (h : r.Holds ms)
    {input : BuildInput} (hschedules : r.Schedules input modules) {calls : List Call}
    {result : Except BuildError Unit} (hcalls : CallsOf [] modules calls result) {i : Nat}
    (hi : i < calls.length) {n : Module} (hn : n ∈ modules)
    (hdependency : n.id ∈ calls[i].module.descriptor.dependencies) :
    ∃ call ∈ calls.take i, call.module = n ∧ call.outcome = .ok () := by
  obtain ⟨wanted, hrun⟩ := h.runsInOrder_of_schedules hschedules
  have hearlier := hcalls.modules_prefix
  have hlength : calls.length ≤ modules.length := by
    simpa using hearlier.length_le
  have hmodule : ∀ (k : Nat) (hk : k < calls.length), calls[k].module = modules[k] := by
    intro k hk
    have hget := hearlier.getElem (i := k) (by simpa using hk)
    simpa using hget
  obtain ⟨j, hj, rfl⟩ := List.getElem_of_mem hn
  rw [hmodule i hi] at hdependency
  have hji : j < i := hrun.after i j (by omega) hj hdependency
  have hlt : j < calls.length := by omega
  refine ⟨calls[j], ?_, hmodule j hlt, hcalls.completed i j hji hi⟩
  exact List.mem_take_iff_getElem.2 ⟨j, by omega, rfl⟩

/-! ### From the parts to the whole -/

section Ending

variable {r : Registry} {ms : List Module} {input : BuildInput} {tree after : Files.Tree}
  {outcome : Except BuildError RunSummary}

/-- A build whose schedule cannot be made calls no module. -/
theorem Holds.endsInOrder_of_early (h : r.Holds ms) {e : BuildError} (hearly : IsEarlyError e) :
    EndsInOrder r input tree (.error e) tree [] where
  distinct _ hschedules := h.schedule_distinct hschedules
  found i hi := absurd hi (Nat.not_lt_zero i)
  dependencies _ _ i hi := absurd hi (Nat.not_lt_zero i)
  untouched _ _ _ := rfl
  error e' he' := by
    cases he'
    exact errorTells_of_isEarlyError hearly
  ok summary hok := by cases hok

/-- What the calls tell about themselves holds however a build with a schedule ends. -/
theorem Holds.endsInOrder_of_calls (h : r.Holds ms) {modules : List Module}
    (hschedules : r.Schedules input modules) {calls : List Call} {result : Except BuildError Unit}
    (hcalls : CallsOf [] modules calls result)
    (huntouched : ∀ e, outcome = .error e → (∀ path reason, e ≠ .resourceWrite path reason) →
      after = tree)
    (herror : ∀ e, outcome = .error e → ErrorTells r input calls e)
    (hok : ∀ summary, outcome = .ok summary →
      AllCompleted modules calls ∧ summary.executedModules = modules.map Module.id) :
    EndsInOrder r input tree outcome after calls where
  distinct _ hother := h.schedule_distinct hother
  found i hi := by simpa using hcalls.found i hi
  dependencies other hother i hi n hn hdependency := by
    rw [hother.unique hschedules] at hn
    exact h.dependency_called hschedules hcalls hi hn hdependency
  untouched := huntouched
  error := herror
  ok summary hsummary := ⟨modules, hschedules, hok summary hsummary⟩

/-- A build that fails on the files as it found them. -/
theorem Holds.endsInOrder_of_unwritten (h : r.Holds ms) {modules : List Module}
    (hschedules : r.Schedules input modules) {calls : List Call} {result : Except BuildError Unit}
    (hcalls : CallsOf [] modules calls result) {e : BuildError}
    (htells : ErrorTells r input calls e) : EndsInOrder r input tree (.error e) tree calls := by
  refine h.endsInOrder_of_calls hschedules hcalls (fun _ _ _ => rfl) ?_ ?_
  · intro e' he'
    cases he'
    exact htells
  · intro summary hsummary
    cases hsummary

/-- A build that fails in writing does so when all modules have succeeded. -/
theorem Holds.endsInOrder_of_unwritable (h : r.Holds ms) {modules : List Module}
    (hschedules : r.Schedules input modules) {calls : List Call}
    (hcalls : CallsOf [] modules calls (.ok ())) {path reason : String} :
    EndsInOrder r input tree (.error (.resourceWrite path reason)) after calls := by
  refine h.endsInOrder_of_calls hschedules hcalls ?_ ?_ ?_
  · intro e he hwrite
    cases he
    exact absurd rfl (hwrite path reason)
  · intro e he
    cases he
    exact ⟨modules, hschedules, (hcalls.of_ok rfl).1, (hcalls.of_ok rfl).2⟩
  · intro summary hsummary
    cases hsummary

end Ending

/-- What a build with a schedule answers, from how the work of the modules ended. -/
theorem run_notedGenerate {r : Registry} {input : BuildInput} {c after : Context}
    {modules : List Module} {outcome : Except BuildError Unit} {calls : List Call}
    (hprepare : r.prepare input = .ok (c, modules))
    (hall : (Noted.runAll modules).run.run (c, []) = (outcome, after, calls))
    (resources : Files.Path) (tree : Files.Tree) :
    (r.notedGenerate input resources).run.run (tree, []) =
      (((Generation.flush outcome after resources).run.run tree).1,
        ((Generation.flush outcome after resources).run.run tree).2, calls) := by
  have hparts : (r.notedGenerate input resources).run.run (tree, []) =
      let noted := (Noted.runAll modules).run.run (c, [])
      (((Generation.flush noted.1 noted.2.1 resources).run.run tree).1,
        ((Generation.flush noted.1 noted.2.1 resources).run.run tree).2, noted.2.2) := by
    unfold notedGenerate
    rw [hprepare]
    rfl
  rw [hparts, hall]

theorem run_notedBuild_error {r : Registry} {input : BuildInput} {folder : OutputFolder}
    {tree after : Files.Tree} {calls : List Call} {e : BuildError}
    (hgenerate : (r.notedGenerate input folder.resources).run.run (tree, []) =
      (.error e, after, calls)) (generatedAt : String) :
    (r.notedBuild input folder generatedAt).run.run (tree, []) = (.error e, after, calls) := by
  unfold notedBuild
  rw [run_bind, hgenerate]

theorem run_notedBuild_ok {r : Registry} {input : BuildInput} {folder : OutputFolder}
    {tree written after : Files.Tree} {calls : List Call} {output : GenerationOutput}
    {delivered : Except BuildError Unit} {generatedAt : String}
    (hgenerate : (r.notedGenerate input folder.resources).run.run (tree, []) =
      (.ok output, written, calls))
    (hdeliver : (folder.deliver output
      (RunSummary.ofOutput output (output.profile.getD .jit) generatedAt)).run.run written =
        (delivered, after)) :
    (r.notedBuild input folder generatedAt).run.run (tree, []) =
      (delivered.map fun _ => RunSummary.ofOutput output (output.profile.getD .jit) generatedAt,
        after, calls) := by
  have hlift : (Noted.lift (folder.deliver output
      (RunSummary.ofOutput output (output.profile.getD .jit) generatedAt))).run.run
        (written, calls) = (delivered, after, calls) := by
    show (_, _, _) = _
    rw [hdeliver]
  unfold notedBuild
  rw [run_bind, hgenerate]
  simp only [run_bind]
  rw [hlift]
  cases delivered <;> rfl

/-- A registered module acts through the operations of the context. Then every build calls its
modules in the order of the schedule, each when those that it depends on have succeeded, and no file
is touched before all of them have. -/
theorem build_endsInOrder (ms : List Module) (r : Registry) (hregistered : registerAll {} ms = .ok r)
    (hops : ∀ m ∈ ms, m.generate.ByOperations) (input : BuildInput) (folder : OutputFolder)
    (generatedAt : String) (tree : Files.Tree) :
    ∃ outcome after calls,
      (r.build input folder generatedAt).run.run tree = (outcome, after) ∧
      (r.notedBuild input folder generatedAt).run.run (tree, []) = (outcome, after, calls) ∧
      EndsInOrder r input tree outcome after calls := by
  have h : r.Holds ms := by
    have hheld := holds_empty.of_registerAll hregistered
    rw [List.append_nil] at hheld
    exact hheld.perm (List.reverse_perm ms)
  suffices hnoted : ∃ outcome after calls,
      (r.notedBuild input folder generatedAt).run.run (tree, []) = (outcome, after, calls) ∧
      EndsInOrder r input tree outcome after calls by
    obtain ⟨outcome, after, calls, hrun, hends⟩ := hnoted
    have herases := r.erases_notedBuild input folder generatedAt tree []
    rw [hrun] at herases
    exact ⟨outcome, after, calls, herases.symm, hrun, hends⟩
  cases hprepare : r.prepare input with
  | error e =>
    refine ⟨.error e, tree, [], ?_, h.endsInOrder_of_early (prepare_error hprepare)⟩
    refine run_notedBuild_error ?_ generatedAt
    unfold notedGenerate
    rw [hprepare]
    rfl
  | ok prepared =>
    obtain ⟨c, modules⟩ := prepared
    obtain ⟨hschedules, hspace, hexecuted, hopen⟩ := prepare_ok hprepare
    have hops' : ∀ m ∈ modules, m.generate.ByOperations := by
      obtain ⟨wanted, hrun⟩ := h.runsInOrder_of_schedules hschedules
      exact fun m hm => hops m ((hrun.mem_iff m).1 hm).1
    obtain ⟨generated, context, calls, result, hall, hcalls, hopen', hcases⟩ :=
      run_notedRunAll hops' hopen
    rw [hexecuted] at hcalls hcases
    have hgenerate := run_notedGenerate hprepare hall folder.resources tree
    rcases hcases with ⟨e, rfl, rfl⟩ | ⟨rfl, rfl⟩ | ⟨rfl, rfl, hcontext⟩
    · -- a module failed
      obtain ⟨before, m, rest, completed, found, cause, rfl, rfl, rfl, hmodules, hok⟩ :=
        hcalls.of_error rfl
      have htells : ErrorTells r input (completed ++ [⟨m, found, .error cause⟩])
          (.moduleFailed m.id cause) :=
        ⟨before, m, rest, completed, found, hschedules, rfl, ⟨hmodules, hok⟩, rfl⟩
      exact ⟨_, _, _, run_notedBuild_error hgenerate generatedAt,
        h.endsInOrder_of_unwritten hschedules hcalls htells⟩
    · -- the name of the entry point is taken
      obtain ⟨hmodules, hok⟩ := hcalls.of_ok rfl
      have htells : ErrorTells r input calls
          (.nameCollision (Names.qualify c.space EntryPoint.configurerName)) :=
        ⟨c.space, modules, hspace, rfl, hschedules, hmodules, hok⟩
      exact ⟨_, _, _, run_notedBuild_error hgenerate generatedAt,
        h.endsInOrder_of_unwritten hschedules hcalls htells⟩
    · -- the modules succeeded, and the writes begin
      obtain ⟨flushed, tree₁, hflush, hwrite, houtput⟩ :=
        Generation.run_flush_ok hopen' folder.resources tree
      rw [hflush] at hgenerate
      cases flushed with
      | error e =>
        obtain ⟨path, reason, rfl⟩ := hwrite e rfl
        exact ⟨_, _, _, run_notedBuild_error hgenerate generatedAt,
          h.endsInOrder_of_unwritable hschedules hcalls⟩
      | ok output =>
        rcases hdelivered : StateT.run (ExceptT.run (folder.deliver output
          (RunSummary.ofOutput output (output.profile.getD .jit) generatedAt))) tree₁
          with ⟨e | ⟨⟩, tree₂⟩
        · obtain ⟨path, reason, rfl⟩ :=
            Writing.failsInWriting_deliver folder output _ _ _ _ hdelivered
          exact ⟨_, _, _, run_notedBuild_ok hgenerate hdelivered,
            h.endsInOrder_of_unwritable hschedules hcalls⟩
        · refine ⟨_, _, _, run_notedBuild_ok hgenerate hdelivered,
            h.endsInOrder_of_calls hschedules hcalls ?_ ?_ ?_⟩
          · intro e he
            cases he
          · intro e he
            cases he
          · intro summary hsummary
            cases hsummary
            refine ⟨⟨(hcalls.of_ok rfl).1, (hcalls.of_ok rfl).2⟩, ?_⟩
            have hexecuted' := houtput output rfl
            rw [hcontext, List.nil_append] at hexecuted'
            exact hexecuted'

/-- The second of two modules fails behind a write that the first has queued. -/
theorem build_endsInOrder_of_two :
    let first : Module := ⟨{ id := "first", enabledByDefault := true },
      Generation.registerServiceImplementation "x.Service" "Partial"⟩
    let second : Module := ⟨{ id := "second", dependencies := ["first"], enabledByDefault := true },
      throw (.generationFailed "boom")⟩
    let input : BuildInput :=
      { settings := .ofPairs [("generated.package", "gen")], analyzer := ⟨{}, requirementsMet⟩
        application := {} }
    ∃ r, registerAll {} [second, first] = .ok r ∧
      (∀ m ∈ [second, first], m.generate.ByOperations) ∧
      ∃ outcome after calls,
        ((r.build input ⟨"out"⟩ "").run.run {} = (outcome, after) ∧
          (r.notedBuild input ⟨"out"⟩ "").run.run ({}, []) = (outcome, after, calls) ∧
          EndsInOrder r input {} outcome after calls) ∧
        outcome = .error (.moduleFailed "second" (.generationFailed "boom")) := by
  intro first second input
  have hregister : (registerAll {} [second, first]).isOk = true := by decide +kernel
  cases hr : registerAll {} [second, first] with
  | error e =>
    rw [hr] at hregister
    cases hregister
  | ok r =>
    have hops : ∀ m ∈ [second, first], m.generate.ByOperations := by
      simp only [List.mem_cons, List.not_mem_nil, or_false, forall_eq_or_imp, forall_eq]
      exact ⟨.fail _, .registerServiceImplementation _ _⟩
    refine ⟨r, rfl, hops, ?_⟩
    obtain ⟨outcome, after, calls, hbuild, hnoted, hends⟩ :=
      build_endsInOrder [second, first] r hr hops input ⟨"out"⟩ "" {}
    refine ⟨outcome, after, calls, ⟨hbuild, hnoted, hends⟩, ?_⟩
    have hfails : ((registerAll {} [second, first]).toOption.map fun r =>
        match (r.build input ⟨"out"⟩ "").run.run {} with
        | (.error e, _) => decide (e = .moduleFailed "second" (.generationFailed "boom"))
        | (.ok _, _) => false) = some true := by
      decide +kernel
    rw [hr] at hfails
    simp only [Except.toOption, Option.map_some, Option.some.injEq, hbuild] at hfails
    cases outcome with
    | error e => rw [of_decide_eq_true hfails]
    | ok summary => cases hfails

end Registry

end BuildAhead
