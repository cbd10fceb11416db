import BuildAhead.Proofs.Collection.Dict
import BuildAhead.Proofs.Generation.Running

set_option autoImplicit false

/-!
# Generation: actions made of operations

A module, or a substitution, acts on the context through its operations only, and leaves it to the
build to run the deferred writes and to record which modules ran. Whatever such an action does, and
whether it succeeds or fails, what the build began with stays, and what earlier actions left is
only added to.
-/

namespace BuildAhead

/-! ## Growth of a context -/

/-- One context came out of another by additions. -/
structure Context.Grows (c c' : Context) : Prop where
  space : c'.space = c.space
  profile : c'.profile = c.profile
  settings : c'.settings = c.settings
  analyzer : c'.analyzer = c.analyzer
  application : c'.application = c.application
  executedModules : c'.executedModules = c.executedModules
  finished : c'.finished = c.finished
  units : c.units <+: c'.units
  staticInitializers : c.staticInitializers <+: c'.staticInitializers
  pending : c.pending <+: c'.pending
  diagnostics : ∀ category, c.diagnostics.messages category <+: c'.diagnostics.messages category
  excludedResources : ∀ name, c.excludedResources.contains name = true →
    c'.excludedResources.contains name = true
  buildTimeInit : ∀ name, c.buildTimeInit.contains name = true →
    c'.buildTimeInit.contains name = true

namespace Context.Grows

theorem refl (c : Context) : c.Grows c where
  space := rfl
  profile := rfl
  settings := rfl
  analyzer := rfl
  application := rfl
  executedModules := rfl
  finished := rfl
  units := List.prefix_rfl
  staticInitializers := List.prefix_rfl
  pending := List.prefix_rfl
  diagnostics _ := List.prefix_rfl
  excludedResources _ hname := hname
  buildTimeInit _ hname := hname

theorem trans {a b c : Context} (hab : a.Grows b) (hbc : b.Grows c) : a.Grows c where
  space := hbc.space.trans hab.space
  profile := hbc.profile.trans hab.profile
  settings := hbc.settings.trans hab.settings
  analyzer := hbc.analyzer.trans hab.analyzer
  application := hbc.application.trans hab.application
  executedModules := hbc.executedModules.trans hab.executedModules
  finished := hbc.finished.trans hab.finished
  units := hab.units.trans hbc.units
  staticInitializers := hab.staticInitializers.trans hbc.staticInitializers
  pending := hab.pending.trans hbc.pending
  diagnostics category := (hab.diagnostics category).trans (hbc.diagnostics category)
  excludedResources name hname := hbc.excludedResources name (hab.excludedResources name hname)
  buildTimeInit name hname := hbc.buildTimeInit name (hab.buildTimeInit name hname)

end Context.Grows

namespace Generation

variable {α β : Type}

/-- Whatever context an action finds, it leaves one that grew out of it. -/
def Growing (x : Generation α) : Prop := ∀ c : Context, c.Grows (x.runOn c).2

namespace Growing

theorem bind {x : Generation α} {f : α → Generation β} (hx : Growing x)
    (hf : ∀ a, Growing (f a)) : Growing (x >>= f) := by
  intro c
  rw [runOn_bind]
  have hfirst := hx c
  cases hrun : x.runOn c with
  | mk result c₁ =>
    rw [hrun] at hfirst
    cases result with
    | ok a => exact hfirst.trans (hf a c₁)
    | error e => exact hfirst

theorem tryCatch {x : Generation α} {handler : BuildError → Generation α} (hx : Growing x)
    (hhandler : ∀ e, Growing (handler e)) : Growing (tryCatch x handler) := by
  intro c
  rw [runOn_tryCatch]
  have hfirst := hx c
  cases hrun : x.runOn c with
  | mk result c₁ =>
    rw [hrun] at hfirst
    cases result with
    | ok a => exact hfirst
    | error e => exact hfirst.trans (hhandler e c₁)

theorem diagnose (category message : String) : Growing (diagnose category message) := by
  intro c
  refine { Context.Grows.refl c with diagnostics := ?_ }
  intro other
  rw [runOn_diagnose, Diagnostics.messages_add]
  split
  · next heq =>
    rw [heq]
    exact List.prefix_append _ _
  · exact List.prefix_rfl

theorem registerUnit (u : CodeUnit) : Growing (registerUnit u) := by
  intro c
  rw [runOn_registerUnit]
  split
  · exact .refl c
  · split
    · exact .refl c
    · exact { Context.Grows.refl c with units := List.prefix_append _ _ }

theorem registerStaticInitializer (m : Code.Method) : Growing (registerStaticInitializer m) := by
  intro c
  rw [runOn_registerStaticInitializer]
  split
  · exact .refl c
  · split
    · exact .refl c
    · exact { Context.Grows.refl c with staticInitializers := List.prefix_append _ _ }

theorem registerResource (path : String) (action : FinishView → FileAction) :
    Growing (registerResource path action) := by
  intro c
  rw [runOn_registerResource]
  split
  · exact .refl c
  · exact { Context.Grows.refl c with pending := List.prefix_append _ _ }

theorem excludeResource (path : String) : Growing (excludeResource path) := by
  intro c
  refine { Context.Grows.refl c with excludedResources := ?_ }
  intro name hname
  rw [runOn_excludeResource, NameSet.contains_iff, NameSet.mem_insert]
  exact .inr (NameSet.contains_iff.1 hname)

theorem requireBuildTimeInit (type : String) : Growing (requireBuildTimeInit type) := by
  intro c
  refine { Context.Grows.refl c with buildTimeInit := ?_ }
  intro name hname
  rw [runOn_requireBuildTimeInit, NameSet.contains_iff, NameSet.mem_insert]
  exact .inr (NameSet.contains_iff.1 hname)

theorem publishSubstitutes (s : Substitutes) : Growing (publishSubstitutes s) := by
  intro c
  exact { Context.Grows.refl c with profile := rfl }

theorem publishDeducedEnvironment (deduce : Bool) :
    Growing (publishDeducedEnvironment deduce) := by
  intro c
  exact { Context.Grows.refl c with profile := rfl }

end Growing

/-! ## Properties that actions keep -/

/-- Whenever an action succeeds on a context with a property, it leaves one with the property. -/
def Keeps (P : Context → Prop) (x : Generation α) : Prop :=
  ∀ c a c', P c → x.runOn c = (.ok a, c') → P c'

namespace Keeps

variable {P : Context → Prop}

theorem pure (a : α) : Keeps P (pure a) := by
  intro c b c' hc hrun
  cases hrun
  exact hc

theorem fail (e : BuildError) : Keeps P (throw e : Generation α) := by
  intro c a c' _ hrun
  cases hrun

theorem bind {x : Generation α} {f : α → Generation β} (hx : Keeps P x)
    (hf : ∀ a, Keeps P (f a)) : Keeps P (x >>= f) := by
  intro c b c' hc hrun
  obtain ⟨a, c₁, hfirst, hsecond⟩ := runOn_bind_eq_ok_iff.1 hrun
  exact hf a c₁ b c' (hx c a c₁ hc hfirst) hsecond

/-- What is done behind a look at the context is done on the context that was seen. -/
theorem look {f : Context → Generation α}
    (hf : ∀ c a c', P c → (f c).runOn c = (.ok a, c') → P c') : Keeps P (get >>= f) := by
  intro c a c' hc hrun
  rw [runOn_bind, runOn_get] at hrun
  exact hf c a c' hc hrun

theorem update {f : Context → Context} (hf : ∀ c, P c → P (f c)) : Keeps P (modify f) := by
  intro c a c' hc hrun
  cases hrun
  exact hf c hc

theorem trackUnits {x : Generation α} (hx : Keeps P x) : Keeps P (trackUnits x) :=
  look fun _ _ _ hc hrun =>
    (hx.bind fun _ => look fun _ _ _ hc hrun => pure _ _ _ _ hc hrun) _ _ _ hc hrun

end Keeps

/-! ## Actions made of operations -/

/-- An action that is made of the operations on a context. It may look at the whole context, decide
by what it sees, fail, and go on behind a failure; `Context.finish` and `markExecuted` are not among
its operations. -/
inductive ByOperations : {α : Type} → Generation α → Prop where
  | pure {α : Type} (a : α) : ByOperations (pure a)
  | fail {α : Type} (e : BuildError) : ByOperations (throw e : Generation α)
  | bind {α β : Type} {x : Generation α} {f : α → Generation β} :
    ByOperations x → (∀ a, ByOperations (f a)) → ByOperations (x >>= f)
  | attempt {α : Type} {x : Generation α} {handler : BuildError → Generation α} :
    ByOperations x → (∀ e, ByOperations (handler e)) → ByOperations (tryCatch x handler)
  | look : ByOperations (get : Generation Context)
  | diagnose (category message : String) : ByOperations (diagnose category message)
  | registerUnit (u : CodeUnit) : ByOperations (registerUnit u)
  | registerStaticInitializer (m : Code.Method) : ByOperations (registerStaticInitializer m)
  | registerResource (path : String) (action : FinishView → FileAction) :
    ByOperations (registerResource path action)
  | excludeResource (path : String) : ByOperations (excludeResource path)
  | requireBuildTimeInit (name : String) : ByOperations (requireBuildTimeInit name)
  | publishSubstitutes (s : Substitutes) : ByOperations (publishSubstitutes s)
  | publishDeducedEnvironment (deduce : Bool) : ByOperations (publishDeducedEnvironment deduce)

namespace ByOperations

/-- Every operation adds to the context, and so does every action that is made of operations. -/
theorem growing {x : Generation α} (hx : ByOperations x) : Growing x := by
  induction hx with
  | pure a => exact fun c => Context.Grows.refl c
  | fail e => exact fun c => Context.Grows.refl c
  | bind _ _ ihx ihf => exact ihx.bind ihf
  | attempt _ _ ihx ihhandler => exact ihx.tryCatch ihhandler
  | look => exact fun c => Context.Grows.refl c
  | diagnose category message => exact .diagnose category message
  | registerUnit u => exact .registerUnit u
  | registerStaticInitializer m => exact .registerStaticInitializer m
  | registerResource path action => exact .registerResource path action
  | excludeResource path => exact .excludeResource path
  | requireBuildTimeInit name => exact .requireBuildTimeInit name
  | publishSubstitutes s => exact .publishSubstitutes s
  | publishDeducedEnvironment deduce => exact .publishDeducedEnvironment deduce

theorem ensureOpen : ByOperations ensureOpen := by
  unfold Generation.ensureOpen
  refine look.bind fun c => ?_
  split
  · exact .fail _
  · exact .pure _

theorem registerServiceImplementation (service name : String) :
    ByOperations (registerServiceImplementation service name) :=
  look.bind fun _ => .registerResource _ _

theorem writeServiceManifest (service name : String) :
    ByOperations (writeServiceManifest service name) :=
  look.bind fun _ => .registerResource _ _

theorem registerStaticOptimization (name kind : String) (body : LoaderBody) :
    ByOperations (registerStaticOptimization name kind body) :=
  ensureOpen.bind fun _ => (requireBuildTimeInit kind).bind fun _ => look.bind fun _ =>
    (registerUnit _).bind fun _ => (registerServiceImplementation _ _).bind fun _ => .pure _

theorem trackUnits {x : Generation α} (hx : ByOperations x) : ByOperations (trackUnits x) :=
  look.bind fun _ => hx.bind fun _ => look.bind fun _ => .pure _

end ByOperations

end Generation

end BuildAhead
