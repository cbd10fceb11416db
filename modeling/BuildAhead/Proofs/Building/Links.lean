import BuildAhead.Proofs.Building.Refusal
import BuildAhead.Proofs.Optimizations.Linking

set_option autoImplicit false

/-!
# Building: what a build that succeeds has done

A build of the catalogue that succeeds has run every module of its schedule and the entry point, and
then all deferred writes. The context behind the modules is linked, so what the build wrote for the
manifests, and what its loaders refer to, can be told from its units.
-/

namespace BuildAhead

open Context (Linked)

namespace Generation

variable {base c c' : Context} {executed : List String}

theorem generate_of_inModule {m : Module} (hrun : (inModule m).runOn c = (.ok (), c')) :
    m.generate.runOn c = (.ok (), c') := by
  rw [runOn_inModule] at hrun
  rcases hwork : m.generate.runOn c with ⟨e | ⟨⟩, after⟩
  · rw [hwork] at hrun
    cases hrun
  · rw [hwork] at hrun
    cases hrun
    rfl

/-- Modules of the catalogue, one after the other. -/
theorem linked_runModules {ms : List Module} (hms : ∀ m ∈ ms, m ∈ standardModules)
    (h : Linked base executed (NativeImage.argumentsWrites base executed) c)
    (hrun : (runModules ms).runOn c = (.ok (), c')) :
    Linked base (executed ++ ms.map Module.id)
      (NativeImage.argumentsWrites base (executed ++ ms.map Module.id)) c' := by
  induction ms generalizing c executed with
  | nil =>
    cases hrun
    rwa [List.map_nil, List.append_nil]
  | cons m rest ih =>
    obtain ⟨⟨⟩, c₁, hmodule, hrun⟩ := runOn_bind_eq_ok_iff.1 hrun
    obtain ⟨⟨⟩, c₂, hmark, hrun⟩ := runOn_bind_eq_ok_iff.1 hrun
    obtain ⟨h₁, hloaded⟩ :=
      linked_generate (hms m List.mem_cons_self) h (generate_of_inModule hmodule)
    rw [← NativeImage.argumentsWrites_append] at h₁
    have h₂ : Linked base (executed ++ [m.id])
        (NativeImage.argumentsWrites base (executed ++ [m.id])) c₂ := by
      cases hmark
      exact h₁.markExecuted hloaded
    have hrest := ih (fun n hn => hms n (List.mem_cons_of_mem m hn)) h₂ hrun
    rwa [List.append_assoc, List.singleton_append] at hrest

/-- Modules of the catalogue, with the entry point behind them, leave a linked context. -/
theorem linked_runAll {ms : List Module} (hms : ∀ m ∈ ms, m ∈ standardModules)
    (h : Linked base [] [] c) (hrun : (runAll ms).runOn c = (.ok (), c')) :
    Linked base (ms.map Module.id) (NativeImage.argumentsWrites base (ms.map Module.id)) c' := by
  obtain ⟨⟨⟩, c₁, hmodules, hrun⟩ := runOn_bind_eq_ok_iff.1 hrun
  obtain ⟨unitName, c₂, hentry, hrun⟩ := runOn_bind_eq_ok_iff.1 hrun
  cases hrun
  have h₁ := linked_runModules hms h hmodules
  rw [List.nil_append] at h₁
  exact EntryPoint.keeps_synthesize c₁ unitName c' h₁ hentry

end Generation

namespace Registry

/-- A build of the catalogue for this namespace and profile that ran these modules, left this
context behind them, and has done its deferred writes. -/
structure Completes (input : BuildInput) (resources : Files.Path) (tree tree' : Files.Tree)
    (output : GenerationOutput) (space : String) (profile : Profile) (modules : List Module)
    (c : Context) : Prop where
  readsSpace : input.settings.require Settings.packageKey = .ok space
  readsProfile : input.settings.profile = .ok profile
  schedules : standard.schedule profile input.settings = .ok modules
  linked : Linked (input.contextOf space profile) (modules.map Module.id)
    (NativeImage.argumentsWrites (input.contextOf space profile) (modules.map Module.id)) c
  writes : PendingWrite.runAll c.view resources [] tree c.pending = (.ok (), tree')
  output : output = c.output

variable {input : BuildInput} {resources : Files.Path} {tree tree' : Files.Tree}
  {output : GenerationOutput}

/-- The input of a build for an application with one service, which has one provider. -/
def greeterInput (settings : List (String × String)) : BuildInput where
  settings := .ofPairs
    (("generated.package", "gen") :: ("service.types", "a.Greeter") :: settings)
  analyzer := ⟨{}, requirementsMet⟩
  application :=
    { services := .ofList [("a.Greeter", ["a.Polite"])]
      types := .ofList [("a.Polite", { factoryMethod := true })] }

/-- Every build that succeeds is such a build. -/
theorem exists_completes
    (hrun : (standard.generate input resources).run.run tree = (.ok output, tree')) :
    ∃ space profile modules c,
      Completes input resources tree tree' output space profile modules c := by
  cases hprepare : standard.prepare input with
  | error e =>
    unfold generate at hrun
    rw [hprepare] at hrun
    cases hrun
  | ok prepared =>
    obtain ⟨space, hspace, hrest⟩ := bind_eq_ok hprepare
    obtain ⟨profile, hprofile, hrest⟩ := bind_eq_ok hrest
    obtain ⟨modules, hschedule, hreturn⟩ := bind_eq_ok hrest
    rw [run_generate (prepare_of_ok hspace hprofile hschedule)] at hrun
    obtain ⟨scheduled, hscheduled, hinOrder⟩ := exists_standard_schedule profile input.settings
    rw [hschedule] at hscheduled
    cases hscheduled
    have hms : ∀ m ∈ modules, m ∈ standardModules := fun m hm => ((hinOrder.mem_iff m).1 hm).1
    rcases hall : (Generation.runAll modules).runOn (input.contextOf space profile)
      with ⟨e | ⟨⟩, c⟩
    · rw [hall] at hrun
      cases hrun
    · have hlinked :=
        Generation.linked_runAll hms (Context.linked_start rfl rfl rfl rfl rfl rfl) hall
      rw [hall, Generation.run_flush hlinked.continues.isOpen] at hrun
      rcases hwrites : PendingWrite.runAll c.view resources [] tree c.pending
        with ⟨e | ⟨⟩, after⟩
      · rw [hwrites] at hrun
        cases hrun
      · rw [hwrites] at hrun
        cases hrun
        exact ⟨space, profile, modules, c, hspace, hprofile, hschedule, hlinked, hwrites, rfl⟩

/-- A module of the catalogue has run exactly when it is for the profile and switched on. -/
theorem Completes.mem_executedModules_iff {space : String} {profile : Profile}
    {modules : List Module} {c : Context}
    (h : Completes input resources tree tree' output space profile modules c) {m : Module}
    (hm : m ∈ standardModules) : m.id ∈ output.executedModules ↔
      m.descriptor.profiles.contains profile = true ∧
        m.descriptor.enabled input.settings = true := by
  have hexecuted : output.executedModules = modules.map Module.id := by
    rw [h.output]
    exact h.linked.executedModules
  obtain ⟨scheduled, hscheduled, hinOrder⟩ := exists_standard_schedule profile input.settings
  rw [h.schedules] at hscheduled
  cases hscheduled
  have hmem : m.id ∈ modules.map Module.id ↔ m ∈ modules := by
    constructor
    · intro hid
      obtain ⟨n, hn, hid⟩ := List.mem_map.1 hid
      have heq : n = m := List.inj_on_of_nodup_map holds_standard.distinct
        ((hinOrder.mem_iff n).1 hn).1 hm hid
      exact heq ▸ hn
    · exact fun hm => List.mem_map_of_mem hm
  rw [hexecuted, hmem, hinOrder.mem_iff, Bool.and_eq_true]
  exact and_iff_right hm

end Registry

end BuildAhead
