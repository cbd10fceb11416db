import BuildAhead.Proofs.Building.Outcome
import BuildAhead.Proofs.Optimizations.Owners

set_option autoImplicit false

/-!
# Building: the input that a build refuses

For the modules of the catalogue it can be told from the input alone whether a build fails before its
writes. The schedule can always be made, the modules fail each for reasons of its own, and the name
of the entry point is always free.
-/

namespace BuildAhead

/-! ## The work of the modules -/

namespace Generation

variable {base : Context} {owner : Slot → String}

theorem runOn_inModule (m : Module) (c : Context) :
    (inModule m).runOn c =
      ((m.generate.runOn c).1.mapError (BuildError.moduleFailed m.id), (m.generate.runOn c).2) :=
  rfl

/-- A module takes and refuses what its work does. -/
theorem TakesOwn.inModule {m : Module} {owners : List String} {accepts : Prop}
    (h : TakesOwn base owner m.generate owners accepts) :
    TakesOwn base owner (inModule m) owners accepts := by
  refine ⟨?_, ?_⟩
  · intro c hc hfree
    rw [← h.succeeds_iff c hc hfree, runOn_inModule]
    cases (m.generate.runOn c).1 with
    | error e => simp [Except.mapError]
    | ok a => simp [Except.mapError]
  · intro c a c' hc hrun
    rw [runOn_inModule] at hrun
    rcases hwork : m.generate.runOn c with ⟨e | a', c₁⟩
    · rw [hwork] at hrun
      cases hrun
    · rw [hwork] at hrun
      cases hrun
      exact h.leaves c a c₁ hc hwork

/-- Modules that take names of their own succeed, one after the other, when each accepts the
input. -/
theorem takesOwn_runModules {accepts : String → Prop} {ms : List Module}
    (hdistinct : (ms.map Module.id).Nodup)
    (h : ∀ m ∈ ms, TakesOwn base owner m.generate [m.id] (accepts m.id)) :
    TakesOwn base owner (runModules ms) (ms.map Module.id) (∀ m ∈ ms, accepts m.id) := by
  induction ms with
  | nil => exact TakesOwn.pure.congr (by simp)
  | cons m rest ih =>
    obtain ⟨hnew, hdistinct⟩ := List.nodup_cons.1 hdistinct
    have hmark : TakesOwn base owner (markExecuted m.id) [] True :=
      (TakesOwn.of_registers (Registers.markExecuted m.id) (by simp)).congr (by simp)
    have hrest := ih hdistinct fun n hn => h n (List.mem_cons_of_mem _ hn)
    have hfirst := (h m List.mem_cons_self).inModule
    refine (hfirst.bind (fun _ => hmark.bind (fun _ => hrest) (by simp)) ?_).congr ?_
    · intro o ho
      rw [List.mem_singleton.1 ho]
      exact hnew
    · simp

/-- The entry point belongs to no module. -/
theorem takesOwn_runAll {accepts : String → Prop} {ms : List Module}
    (hdistinct : (ms.map Module.id).Nodup)
    (h : ∀ m ∈ ms, TakesOwn base owner m.generate [m.id] (accepts m.id))
    (hentry : owner (.unit EntryPoint.configurerName) ∉ ms.map Module.id) :
    TakesOwn base owner (runAll ms)
      (ms.map Module.id ++ [owner (.unit EntryPoint.configurerName)])
      (∀ m ∈ ms, accepts m.id) := by
  have hname : Registers base (do let _ ← EntryPoint.synthesize : Generation Unit)
      [.unit EntryPoint.configurerName] True fun _ => True :=
    EntryPoint.registers_synthesize.thenQuietly fun _ _ => .pure trivial
  have hend : TakesOwn base owner (do let _ ← EntryPoint.synthesize : Generation Unit)
      [owner (.unit EntryPoint.configurerName)] True := by
    refine (TakesOwn.of_registers hname ?_).congr (by simp)
    intro s hs
    rw [List.mem_singleton.1 hs]
    exact List.mem_singleton_self _
  refine ((takesOwn_runModules hdistinct h).bind (fun _ => hend) ?_).congr (and_iff_left trivial)
  intro o ho hmem
  rw [List.mem_singleton.1 hmem] at ho
  exact hentry ho

theorem runModules_error {ms : List Module} {c c' : Context} {e : BuildError}
    (hrun : (runModules ms).runOn c = (.error e, c')) : ∃ id cause, e = .moduleFailed id cause := by
  induction ms generalizing c with
  | nil => cases hrun
  | cons m rest ih =>
    rcases runOn_bind_eq_error_iff.1 hrun with hmodule | ⟨_, c₁, -, hrest⟩
    · rw [runOn_inModule] at hmodule
      rcases hwork : m.generate.runOn c with ⟨cause | ⟨⟩, c₁⟩
      · rw [hwork] at hmodule
        cases hmodule
        exact ⟨m.id, cause, rfl⟩
      · rw [hwork] at hmodule
        cases hmodule
    · exact ih hrest

theorem synthesize_error {c c' : Context} {e : BuildError}
    (hrun : EntryPoint.synthesize.runOn c = (.error e, c')) :
    e = .alreadyFinished ∨ ∃ name, e = .nameCollision name := by
  cases hfinished : c.finished with
  | true =>
    simp only [EntryPoint.synthesize, runOn_bind, runOn_get, runOn_registerUnit, hfinished,
      if_true] at hrun
    cases hrun
    exact .inl rfl
  | false =>
    obtain ⟨after, -, -, hcollision | ⟨name, hok⟩⟩ := runOn_synthesize hfinished
    · rw [hcollision] at hrun
      cases hrun
      exact .inr ⟨_, rfl⟩
    · rw [hok] at hrun
      cases hrun

/-- The work of the modules is not a write. -/
theorem runAll_error {ms : List Module} {c c' : Context} {e : BuildError}
    (hrun : (runAll ms).runOn c = (.error e, c')) (path reason : String) :
    e ≠ .resourceWrite path reason := by
  rintro rfl
  rcases runOn_bind_eq_error_iff.1 hrun with hmodules | ⟨_, c₁, -, hend⟩
  · obtain ⟨id, cause, he⟩ := runModules_error hmodules
    cases he
  · rcases runOn_bind_eq_error_iff.1 hend with hentry | ⟨_, c₂, -, hpure⟩
    · rcases synthesize_error hentry with he | ⟨name, he⟩
      · cases he
      · cases he
    · cases hpure

end Generation

/-! ## Before the work of the modules -/

theorem Profile.ofName?_eq_none_iff {name : String} :
    ofName? name = none ↔ name ∉ ["jit", "dynamic", "native", "aot"] := by
  have hmem : name ∈ ["jit", "dynamic", "native", "aot"] ↔
      (name = "jit" ∨ name = "dynamic") ∨ name = "native" ∨ name = "aot" := by
    simp only [List.mem_cons, List.not_mem_nil, or_false, or_assoc]
  rw [hmem, not_or]
  unfold ofName?
  by_cases hjit : name = "jit" ∨ name = "dynamic"
  · rw [if_pos hjit]
    exact iff_of_false (Option.some_ne_none _) fun h => h.1 hjit
  · rw [if_neg hjit]
    by_cases hnative : name = "native" ∨ name = "aot"
    · rw [if_pos hnative]
      exact iff_of_false (Option.some_ne_none _) fun h => h.2 hnative
    · rw [if_neg hnative]
      exact iff_of_true rfl ⟨hjit, hnative⟩

namespace Settings

variable {s : Settings}

theorem exists_require_error_iff {key : String} : (∃ e, s.require key = .error e) ↔
    ∀ text, s.text? key = some text → Text.isAllBlank text = true := by
  unfold require
  cases s.text? key with
  | none => simp
  | some text =>
    cases hblank : Text.isAllBlank text with
    | true => simp [hblank]
    | false => simp [hblank]

theorem exists_profile_error_iff : (∃ e, s.profile = .error e) ↔
    ∃ text, s.text? runtimeKey = some text ∧
      Profile.normalName text ∉ ["jit", "dynamic", "native", "aot"] := by
  unfold profile
  cases s.text? runtimeKey with
  | none => simp
  | some text =>
    have hparse : Profile.parse? text = none ↔ _ := Profile.ofName?_eq_none_iff
    simp only [Option.some.injEq, exists_eq_left', ← hparse]
    cases Profile.parse? text with
    | none => simp
    | some profile => simp

end Settings

/-- The input that a build of the catalogue refuses. -/
inductive BuildInput.Refused (input : BuildInput) : Prop where
  /-- the namespace is not set, or blank -/
  | package (h : ∀ text, input.settings.text? Settings.packageKey = some text →
      Text.isAllBlank text = true)
  /-- the runtime is set to a name that no profile has -/
  | runtime {text : String} (htext : input.settings.text? Settings.runtimeKey = some text)
    (hname : Profile.normalName text ∉ ["jit", "dynamic", "native", "aot"])
  /-- service loading is switched on for the profile and refuses the input -/
  | serviceLoading {profile : Profile} (hprofile : input.settings.profile = .ok profile)
    (hon : input.settings.bool (Names.switch (ServiceLoading.moduleId profile)) true = true)
    (h : ServiceLoading.Refuses input.settings input.analyzer.snapshot input.application)
  /-- variable names are switched on, and their limit is out of its range -/
  | variableNames
    (hon : input.settings.bool (Names.switch VariableNames.moduleId) false = true)
    (h : ¬ input.settings.Admits VariableNames.limitKey VariableNames.IsLimit)

/-- Input with a namespace and a profile is refused for its modules only. -/
theorem BuildInput.not_refused_iff {input : BuildInput} {space : String} {profile : Profile}
    (hspace : input.settings.require Settings.packageKey = .ok space)
    (hprofile : input.settings.profile = .ok profile) :
    ¬ input.Refused ↔
      (input.settings.bool (Names.switch (ServiceLoading.moduleId profile)) true = true →
        ¬ ServiceLoading.Refuses input.settings input.analyzer.snapshot input.application) ∧
      (input.settings.bool (Names.switch VariableNames.moduleId) false = true →
        input.settings.Admits VariableNames.limitKey VariableNames.IsLimit) := by
  constructor
  · intro h
    refine ⟨fun hon hrefuses => h (.serviceLoading hprofile hon hrefuses), fun hon => ?_⟩
    exact Classical.byContradiction fun hlimit => h (.variableNames hon hlimit)
  · rintro ⟨hservices, hvariables⟩ hrefused
    cases hrefused with
    | package h =>
      obtain ⟨e, he⟩ := Settings.exists_require_error_iff.2 h
      rw [hspace] at he
      cases he
    | runtime htext hname =>
      obtain ⟨e, he⟩ := Settings.exists_profile_error_iff.2 ⟨_, htext, hname⟩
      rw [hprofile] at he
      cases he
    | serviceLoading hprofile' hon h =>
      rw [hprofile] at hprofile'
      cases hprofile'
      exact hservices hon h
    | variableNames hon h => exact h (hvariables hon)

/-- The context that a build begins with. -/
def BuildInput.contextOf (input : BuildInput) (space : String) (profile : Profile) : Context where
  space
  profile
  settings := input.settings
  analyzer := input.analyzer
  application := input.application
  schedule := input.schedule

namespace Registry

theorem prepare_of_error {r : Registry} {input : BuildInput} {e : BuildError}
    (h : input.settings.require Settings.packageKey = .error e ∨
      input.settings.profile = .error e) : ∃ e', r.prepare input = .error e' := by
  unfold prepare
  cases hspace : input.settings.require Settings.packageKey with
  | error e' => exact ⟨e', rfl⟩
  | ok space =>
    rcases h with hrequire | hprofile
    · rw [hspace] at hrequire
      cases hrequire
    · rw [hprofile]
      exact ⟨e, rfl⟩

theorem prepare_of_ok {r : Registry} {input : BuildInput} {space : String} {profile : Profile}
    {modules : List Module} (hspace : input.settings.require Settings.packageKey = .ok space)
    (hprofile : input.settings.profile = .ok profile)
    (hschedule : r.schedule profile input.settings = .ok modules) :
    r.prepare input = .ok (input.contextOf space profile, modules) := by
  unfold prepare
  rw [hspace, hprofile]
  show (do let modules ← r.schedule profile input.settings; _) = _
  rw [hschedule]
  rfl

/-! ## From the work of the modules to the build -/

/-- A build fails, and not in writing. -/
def FailsUnwritten (r : Registry) (input : BuildInput) (resources : Files.Path)
    (tree : Files.Tree) : Prop :=
  ∃ e after, (r.generate input resources).run.run tree = (.error e, after) ∧
    ∀ path reason, e ≠ .resourceWrite path reason

variable {r : Registry} {input : BuildInput} {resources : Files.Path} {tree : Files.Tree}

/-- A build that cannot be scheduled fails. -/
theorem failsUnwritten_of_error {e : BuildError} (hprepare : r.prepare input = .error e) :
    r.FailsUnwritten input resources tree := by
  refine ⟨e, tree, ?_, ?_⟩
  · unfold generate
    rw [hprepare]
    rfl
  · intro path reason he
    have hearly := prepare_error hprepare
    rw [he] at hearly
    exact hearly

/-- A build with a schedule is its modules and the entry point, and what follows them. -/
theorem run_generate {c : Context} {modules : List Module}
    (hprepare : r.prepare input = .ok (c, modules)) :
    (r.generate input resources).run.run tree =
      (Generation.flush ((Generation.runAll modules).runOn c).1
        ((Generation.runAll modules).runOn c).2 resources).run.run tree := by
  unfold generate
  rw [hprepare]
  rfl

/-- A build with a schedule fails exactly when the modules and the entry point do. -/
theorem failsUnwritten_iff {c : Context} {modules : List Module} {owner : Slot → String}
    {owners : List String} {accepts : Prop} (hprepare : r.prepare input = .ok (c, modules))
    (hopen : c.finished = false) (hfree : ∀ s, ¬ c.Taken s)
    (howns : Generation.TakesOwn c owner (Generation.runAll modules) owners accepts) :
    r.FailsUnwritten input resources tree ↔ ¬ accepts := by
  have hc : c.Continues c := ⟨rfl, rfl, rfl, rfl, hopen⟩
  have hsucceeds := howns.succeeds_iff c hc fun s _ => hfree s
  unfold FailsUnwritten
  rw [run_generate hprepare, ← hsucceeds]
  rcases hall : (Generation.runAll modules).runOn c with ⟨e | ⟨⟩, c'⟩
  · refine iff_of_true ⟨e, tree, rfl, Generation.runAll_error hall⟩ ?_
    intro hgiven
    obtain ⟨u, hu⟩ := hgiven
    cases hu
  · obtain ⟨hc', -⟩ := howns.leaves c () c' hc hall
    obtain ⟨outcome, after, hflush, hwrite, -⟩ :=
      Generation.run_flush_ok hc'.isOpen resources tree
    refine iff_of_false ?_ (not_not_intro ⟨(), rfl⟩)
    intro hgiven
    obtain ⟨e, after', hfails, hunwritten⟩ := hgiven
    rw [hflush] at hfails
    cases hfails
    obtain ⟨path, reason, he⟩ := hwrite e rfl
    exact hunwritten path reason he

/-! ## The catalogue -/

theorem holds_standard : standard.Holds standardModules := holds_ofModules (by decide)

theorem standard_wellFormed : Declared standardModules ∧ Acyclic standardModules := by
  have hvalid : standard.validate.isOk = true := by decide +kernel
  rw [← holds_standard.validate_eq_ok_iff]
  cases hvalidate : standard.validate with
  | error e =>
    rw [hvalidate] at hvalid
    cases hvalid
  | ok u => rfl

/-- Every profile has a schedule: its modules that are switched on. -/
theorem exists_standard_schedule (profile : Profile) (s : Settings) :
    ∃ modules, standard.schedule profile s = .ok modules ∧
      RunsInOrder standardModules (fun d => d.profiles.contains profile && d.enabled s) modules := by
  obtain ⟨modules, hmodules⟩ := holds_standard.exists_ordered_iff.2 standard_wellFormed
  exact ⟨modules, hmodules, (holds_standard.ordered_eq_ok_iff.1 hmodules).2.inOrder⟩

/-- The modules of a schedule accept the input when those two do that can refuse it, as long as these
are switched on. -/
theorem forall_accepts_iff {base : Context} {profile : Profile} {s : Settings} {modules : List Module}
    (hrun : RunsInOrder standardModules (fun d => d.profiles.contains profile && d.enabled s)
      modules) :
    (∀ m ∈ modules, Catalogue.Accepts base profile m.id) ↔
      (s.bool (Names.switch (ServiceLoading.moduleId profile)) true = true →
        ¬ ServiceLoading.Refuses base.settings base.analyzer.snapshot base.application) ∧
      (s.bool (Names.switch VariableNames.moduleId) false = true →
        base.settings.Admits VariableNames.limitKey VariableNames.IsLimit) := by
  have hservices : ServiceLoading.module profile ∈ standardModules := by
    cases profile <;> simp [standardModules]
  have hprofile : (ServiceLoading.module profile).descriptor.profiles.contains profile = true := by
    cases profile <;> rfl
  have hvariables : VariableNames.module ∈ standardModules := by simp [standardModules]
  have hboth : VariableNames.module.descriptor.profiles.contains profile = true := by
    cases profile <;> rfl
  have hmem : ∀ n ∈ standardModules, n.descriptor.profiles.contains profile = true →
      (n ∈ modules ↔ n.descriptor.enabled s = true) := by
    intro n hn hcontains
    rw [hrun.mem_iff, hcontains, Bool.true_and]
    exact and_iff_right hn
  have hinj : ∀ m ∈ modules, ∀ n ∈ standardModules, m.id = n.id → m = n := fun m hm n hn hid =>
    List.inj_on_of_nodup_map holds_standard.distinct ((hrun.mem_iff m).1 hm).1 hn hid
  constructor
  · intro h
    refine ⟨fun hon => ?_, fun hon => ?_⟩
    · exact (h _ ((hmem _ hservices hprofile).2 hon)).1 rfl
    · exact (h _ ((hmem _ hvariables hboth).2 hon)).2 rfl
  · rintro ⟨hservices', hvariables'⟩ m hm
    refine ⟨fun hid => hservices' ?_, fun hid => hvariables' ?_⟩
    · have heq := hinj m hm _ hservices hid
      exact (hmem _ hservices hprofile).1 (heq ▸ hm)
    · have heq := hinj m hm _ hvariables hid
      exact (hmem _ hvariables hboth).1 (heq ▸ hm)

/-- Scheduled modules of the catalogue, and the entry point, take names of their own. -/
theorem takesOwn_schedule {input : BuildInput} {profile : Profile} {modules : List Module}
    (hprofile : input.settings.profile = .ok profile)
    (hschedule : standard.schedule profile input.settings = .ok modules)
    (hrun : RunsInOrder standardModules
      (fun d => d.profiles.contains profile && d.enabled input.settings) modules) (base : Context) :
    Generation.TakesOwn base (Catalogue.ownerOf profile) (Generation.runAll modules)
      (modules.map Module.id ++ [Catalogue.ownerOf profile (.unit EntryPoint.configurerName)])
      (∀ m ∈ modules, Catalogue.Accepts base profile m.id) := by
  have hdistinct := holds_standard.schedule_distinct ⟨profile, hprofile, hschedule⟩
  refine Generation.takesOwn_runAll hdistinct ?_ ?_
  · intro m hm
    obtain ⟨hstandard, hwanted⟩ := (hrun.mem_iff m).1 hm
    exact Catalogue.takesOwn_generate base profile m hstandard (Bool.and_eq_true_iff.1 hwanted).1
  · have howner : Catalogue.ownerOf profile (.unit EntryPoint.configurerName) =
        EntryPoint.configurerName :=
      Catalogue.ownerOf_fixed profile (_, _) List.mem_cons_self
    have hnone : ∀ m ∈ standardModules, m.id ≠ EntryPoint.configurerName := by decide
    rw [howner]
    intro hmem
    obtain ⟨m, hm, hid⟩ := List.mem_map.1 hmem
    exact hnone m ((hrun.mem_iff m).1 hm).1 hid

/-- A build of the catalogue fails exactly on the input that is refused, unless it fails in
writing. -/
theorem standard_failsUnwritten_iff (input : BuildInput) (resources : Files.Path)
    (tree : Files.Tree) :
    standard.FailsUnwritten input resources tree ↔ input.Refused := by
  cases hspace : input.settings.require Settings.packageKey with
  | error e =>
    obtain ⟨e', hprepare⟩ := prepare_of_error (r := standard) (.inl hspace)
    exact iff_of_true (failsUnwritten_of_error hprepare)
      (.package (Settings.exists_require_error_iff.1 ⟨e, hspace⟩))
  | ok space =>
    cases hprofile : input.settings.profile with
    | error e =>
      obtain ⟨e', hprepare⟩ := prepare_of_error (r := standard) (.inr hprofile)
      obtain ⟨text, htext, hname⟩ := Settings.exists_profile_error_iff.1 ⟨e, hprofile⟩
      exact iff_of_true (failsUnwritten_of_error hprepare) (.runtime htext hname)
    | ok profile =>
      obtain ⟨modules, hschedule, hrun⟩ := exists_standard_schedule profile input.settings
      have hprepare := prepare_of_ok hspace hprofile hschedule
      have hfree : ∀ s, ¬ (input.contextOf space profile).Taken s := by
        intro s
        cases s with
        | unit name => exact Bool.false_ne_true
        | initializer name => exact Bool.false_ne_true
      rw [failsUnwritten_iff hprepare rfl hfree (takesOwn_schedule hprofile hschedule hrun _),
        forall_accepts_iff hrun, ← not_not (a := input.Refused),
        BuildInput.not_refused_iff hspace hprofile]
      rfl

end Registry

end BuildAhead
