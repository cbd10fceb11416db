import BuildAhead.Proofs.Generation.Running
import Mathlib.Data.List.Forall2

set_option autoImplicit false

/-!
# Generation: contexts that are alike

What an action does to the context does not depend on the code of units, only on their names, and
not on the order of the messages that came before. Contexts that differ in nothing else are alike,
and two actions run alike when they end in the same way and leave contexts that are alike again.
-/

namespace BuildAhead

/-! ## Logs of the same messages -/

/-- In which order the lists stand does not matter. -/
theorem Interleaves.of_perm {α : Type} {ls ls' : List (List α)} {out : List α}
    (h : Interleaves ls out) (hperm : ls'.Perm ls) : Interleaves ls' out := by
  induction h generalizing ls' with
  | done spent => exact .done fun l hl => spent l (hperm.mem_iff.1 hl)
  | @next before after a l out _ ih =>
    obtain ⟨before', after', rfl⟩ :=
      List.append_of_mem (hperm.mem_iff.2 (List.mem_append_right before List.mem_cons_self))
    have hothers : (before' ++ after').Perm (before ++ after) :=
      (List.perm_middle.symm.trans (hperm.trans List.perm_middle)).cons_inv
    exact .next (ih (List.perm_middle.trans ((hothers.cons l).trans List.perm_middle.symm)))

/-- The last check comes to its end first. -/
def Schedule.backwards : Schedule where
  order _ messages := messages.reverse.flatten
  interleaves _ messages :=
    (Interleaves.flatten messages.reverse).of_perm messages.reverse_perm.symm

/-- Two lists of messages that differ in how those of checks that ran side by side are
interleaved. -/
inductive Rescheduled : List String → List String → Prop where
  | refl (log : List String) : Rescheduled log log
  | interleaved {log log' more more' : List String} {messages : List (List String)}
      (before : Rescheduled log log') (here : Interleaves messages more)
      (there : Interleaves messages more') : Rescheduled (log ++ more) (log' ++ more')

namespace Rescheduled

variable {log log' : List String}

/-- No message is lost, and none comes twice. -/
theorem perm (h : Rescheduled log log') : log.Perm log' := by
  induction h with
  | refl log => exact .refl log
  | interleaved _ here there ih => exact ih.append (here.perm.trans there.perm.symm)

theorem append (h : Rescheduled log log') (more : List String) :
    Rescheduled (log ++ more) (log' ++ more) :=
  h.interleaved (.singleton more) (.singleton more)

end Rescheduled

namespace Diagnostics

/-- Two diagnostics differ in nothing but the order of the messages of one category, and in that by
how those of checks that ran side by side are interleaved. -/
structure Rescheduled (mixed : String) (d d' : Diagnostics) : Prop where
  categories : ∀ category, (d.entries.get? category).isSome = (d'.entries.get? category).isSome
  inMixed : BuildAhead.Rescheduled (d.messages mixed) (d'.messages mixed)
  elsewhere : ∀ category, category ≠ mixed → d.messages category = d'.messages category

theorem isSome_get?_addAll (d : Diagnostics) (category c : String) (messages : List String) :
    ((d.addAll category messages).entries.get? c).isSome =
      ((d.entries.get? c).isSome || (decide (c = category) && !messages.isEmpty)) := by
  unfold addAll
  induction messages generalizing d with
  | nil => simp
  | cons message rest ih =>
    rw [List.foldl_cons, ih, add, Dict.get?_alter]
    by_cases heq : c = category
    · simp [heq]
    · simp [heq]

namespace Rescheduled

variable {mixed : String} {d d' : Diagnostics}

theorem refl (d : Diagnostics) : d.Rescheduled mixed d := ⟨fun _ => rfl, .refl _, fun _ _ => rfl⟩

theorem addAll (h : d.Rescheduled mixed d') (category : String) (messages : List String) :
    (d.addAll category messages).Rescheduled mixed (d'.addAll category messages) where
  categories c := by rw [isSome_get?_addAll, isSome_get?_addAll, h.categories]
  inMixed := by
    rw [messages_addAll, messages_addAll]
    split
    · exact h.inMixed.append messages
    · exact h.inMixed
  elsewhere c hc := by rw [messages_addAll, messages_addAll, h.elsewhere c hc]

theorem add (h : d.Rescheduled mixed d') (category message : String) :
    (d.add category message).Rescheduled mixed (d'.add category message) :=
  h.addAll category [message]

/-- Messages of checks that ran side by side may be scheduled in two ways. -/
theorem addInterleaved (h : d.Rescheduled mixed d') (schedule schedule' : Schedule)
    (messages : List (List String)) :
    (d.addInterleaved schedule mixed messages).Rescheduled mixed
      (d'.addInterleaved schedule' mixed messages) := by
  have here := schedule.interleaves (d.messages mixed).length messages
  have there := schedule'.interleaves (d'.messages mixed).length messages
  refine ⟨?_, ?_, ?_⟩
  · intro c
    rw [Diagnostics.addInterleaved, Diagnostics.addInterleaved, isSome_get?_addAll,
      isSome_get?_addAll, h.categories, (here.perm.trans there.perm.symm).isEmpty_eq]
  · rw [Diagnostics.addInterleaved, Diagnostics.addInterleaved, messages_addAll, messages_addAll,
      if_pos rfl, if_pos rfl]
    exact h.inMixed.interleaved here there
  · intro c hc
    rw [Diagnostics.addInterleaved, Diagnostics.addInterleaved, messages_addAll, messages_addAll,
      if_neg hc, if_neg hc]
    exact h.elsewhere c hc

end Rescheduled

end Diagnostics

/-! ## Contexts -/

/-- In what two contexts may differ. -/
structure Likeness where
  unit : CodeUnit → CodeUnit → Prop
  log : Diagnostics → Diagnostics → Prop

/-- Two units have one name. -/
def CodeUnit.SameName (u v : CodeUnit) : Prop := u.unitName = v.unitName

/-- Contexts that were left under different schedules. -/
def Likeness.rescheduled (mixed : String) : Likeness := ⟨Eq, Diagnostics.Rescheduled mixed⟩

/-- Contexts that differ in the code of units, and in their logs as given. -/
def Likeness.code (log : Diagnostics → Diagnostics → Prop) : Likeness := ⟨CodeUnit.SameName, log⟩

/-- Two contexts have units and diagnostics that are alike, and differ in nothing else but the
schedule. -/
structure Context.Alike (k : Likeness) (c d : Context) : Prop where
  units : List.Forall₂ k.unit c.units d.units
  log : k.log c.diagnostics d.diagnostics
  others : { c with units := [], diagnostics := {}, schedule := .inOrder } =
    { d with units := [], diagnostics := {}, schedule := .inOrder }

namespace Context.Alike

variable {k : Likeness} {c d : Context}

/-- Under another schedule, a context is alike. -/
theorem schedule (hunit : ∀ u, k.unit u u) (hlog : ∀ d, k.log d d) (c : Context)
    (schedule : Schedule) : c.Alike k { c with schedule } :=
  ⟨List.forall₂_same.2 fun u _ => hunit u, hlog _, rfl⟩

theorem mono {k' : Likeness} (h : c.Alike k d) (hunit : ∀ u v, k.unit u v → k'.unit u v)
    (hlog : ∀ d d', k.log d d' → k'.log d d') : c.Alike k' d :=
  ⟨h.units.imp hunit, hlog _ _ h.log, h.others⟩

theorem space (h : c.Alike k d) : c.space = d.space := by
  have hspace := congrArg Context.space h.others
  exact hspace

theorem settings (h : c.Alike k d) : c.settings = d.settings := by
  have hsettings := congrArg Context.settings h.others
  exact hsettings

theorem analyzer (h : c.Alike k d) : c.analyzer = d.analyzer := by
  have hanalyzer := congrArg Context.analyzer h.others
  exact hanalyzer

theorem application (h : c.Alike k d) : c.application = d.application := by
  have happlication := congrArg Context.application h.others
  exact happlication

theorem finished (h : c.Alike k d) : c.finished = d.finished := by
  have hfinished := congrArg Context.finished h.others
  exact hfinished

theorem hasUnit (h : c.Alike k d) (qualified : String) :
    c.hasUnit qualified = d.hasUnit qualified := by
  have hnames := congrArg Context.unitNames h.others
  exact congrArg (NameSet.contains · qualified) hnames

/-- Units of the same name are added to both. -/
theorem addUnit (h : c.Alike k d) {u v : CodeUnit} (huv : k.unit u v) (hname : u.SameName v) :
    (c.addUnit u).Alike k (d.addUnit v) where
  units := List.rel_append h.units (.cons huv .nil)
  log := h.log
  others := by
    have hqualified : u.qualifiedName = v.qualifiedName := congrArg Code.UnitName.qualified hname
    have hadded := congrArg
      (fun c : Context => { c with unitNames := c.unitNames.insert u.qualifiedName }) h.others
    unfold Context.addUnit
    rw [← hqualified]
    exact hadded

end Context.Alike

/-! ## Actions that run alike -/

namespace Generation

variable {α β : Type}

/-- Run on contexts that are alike, two actions end in the same way, also when they fail, and leave
contexts that are alike. -/
def RunAlike (k : Likeness) (x y : Generation α) : Prop :=
  ∀ c d : Context, c.Alike k d →
    (x.runOn c).1 = (y.runOn d).1 ∧ (x.runOn c).2.Alike k (y.runOn d).2

namespace RunAlike

variable {k : Likeness}

theorem pure (a : α) : RunAlike k (Pure.pure a) (Pure.pure a) := by
  intro c d hcd
  exact ⟨rfl, hcd⟩

theorem fail (e : BuildError) : RunAlike k (throw e : Generation α) (throw e) := by
  intro c d hcd
  exact ⟨rfl, hcd⟩

theorem bind {x y : Generation α} {f g : α → Generation β} (hx : RunAlike k x y)
    (hf : ∀ a, RunAlike k (f a) (g a)) : RunAlike k (x >>= f) (y >>= g) := by
  intro c d hcd
  obtain ⟨houtcome, hafter⟩ := hx c d hcd
  rw [runOn_bind, runOn_bind]
  cases hc : x.runOn c with
  | mk outcome c' =>
    cases hd : y.runOn d with
    | mk outcome' d' =>
      rw [hc, hd] at houtcome hafter
      have houtcome : outcome = outcome' := houtcome
      subst houtcome
      cases outcome with
      | error e => exact ⟨rfl, hafter⟩
      | ok a => exact hf a c' d' hafter

/-- What is read from two contexts may differ where they do. -/
theorem look {f g : Context → Generation α}
    (hf : ∀ c d : Context, c.Alike k d → RunAlike k (f c) (g d)) :
    RunAlike k (get >>= f) (get >>= g) := by
  intro c d hcd
  rw [runOn_bind, runOn_bind]
  exact hf c d hcd c d hcd

theorem update {f g : Context → Context}
    (hf : ∀ c d : Context, c.Alike k d → (f c).Alike k (g d)) :
    RunAlike k (modify f) (modify g) := by
  intro c d hcd
  exact ⟨rfl, hf c d hcd⟩

/-- A change of what both have in common. -/
theorem change {f : Context → Context} (hunits : ∀ c, (f c).units = c.units)
    (hlog : ∀ c, (f c).diagnostics = c.diagnostics)
    (hcommutes : ∀ c : Context,
      { f c with units := [], diagnostics := {}, schedule := .inOrder } =
        f { c with units := [], diagnostics := {}, schedule := .inOrder }) :
    RunAlike k (modify f) (modify f) := by
  refine update fun c d hcd => ⟨?_, ?_, ?_⟩
  · rw [hunits, hunits]
    exact hcd.units
  · rw [hlog, hlog]
    exact hcd.log
  · rw [hcommutes, hcommutes, hcd.others]

/-- Messages that both logs take. -/
theorem log {f : Context → Diagnostics}
    (hlog : ∀ c d : Context, c.Alike k d → k.log (f c) (f d)) :
    RunAlike k (modify fun c => { c with diagnostics := f c })
      (modify fun c => { c with diagnostics := f c }) :=
  update fun c d hcd => ⟨hcd.units, hlog c d hcd, hcd.others⟩

theorem publishSubstitutes (s : Substitutes) :
    RunAlike k (Generation.publishSubstitutes s) (Generation.publishSubstitutes s) :=
  change (fun _ => rfl) (fun _ => rfl) fun _ => rfl

theorem requireBuildTimeInit (name : String) :
    RunAlike k (Generation.requireBuildTimeInit name) (Generation.requireBuildTimeInit name) :=
  change (fun _ => rfl) (fun _ => rfl) fun _ => rfl

theorem excludeResource (path : String) :
    RunAlike k (Generation.excludeResource path) (Generation.excludeResource path) :=
  change (fun _ => rfl) (fun _ => rfl) fun _ => rfl

theorem ensureOpen : RunAlike k Generation.ensureOpen Generation.ensureOpen := by
  refine look fun c d hcd => ?_
  rw [hcd.finished]
  split
  · exact fail _
  · exact pure ()

theorem registerResource (path : String) (action : FinishView → FileAction) :
    RunAlike k (Generation.registerResource path action)
      (Generation.registerResource path action) :=
  ensureOpen.bind fun _ => change (fun _ => rfl) (fun _ => rfl) fun _ => rfl

theorem registerServiceImplementation (service name : String) :
    RunAlike k (Generation.registerServiceImplementation service name)
      (Generation.registerServiceImplementation service name) := by
  refine look fun c d hcd => ?_
  rw [hcd.space]
  exact registerResource _ _

/-- Whether a unit can be registered is a matter of its name. -/
theorem registerUnit {u v : CodeUnit} (huv : k.unit u v) (hname : u.SameName v) :
    RunAlike k (Generation.registerUnit u) (Generation.registerUnit v) := by
  have hunitName : u.unitName = v.unitName := hname
  have hqualified : u.qualifiedName = v.qualifiedName := congrArg Code.UnitName.qualified hname
  refine ensureOpen.bind fun _ => look fun c d hcd => ?_
  rw [hcd.hasUnit, hqualified, hunitName]
  split
  · intro c d hcd
    exact ⟨rfl, hcd⟩
  · exact (update fun c d hcd => hcd.addUnit huv hname).bind fun _ => pure v.unitName

theorem registerStaticOptimization (hunit : ∀ u, k.unit u u) (name kind : String)
    (body : LoaderBody) :
    RunAlike k (Generation.registerStaticOptimization name kind body)
      (Generation.registerStaticOptimization name kind body) := by
  refine ensureOpen.bind fun _ => (requireBuildTimeInit kind).bind fun _ => look fun c d hcd => ?_
  rw [hcd.space]
  exact (registerUnit (hunit _) rfl).bind fun n =>
    (registerServiceImplementation _ name).bind fun _ => pure n

/-- Where units are alike only when they are the same, the units of an action can be tracked. -/
theorem trackUnits {x y : Generation α} (hk : k.unit = Eq) (hx : RunAlike k x y) :
    RunAlike k (Generation.trackUnits x) (Generation.trackUnits y) := by
  have hunits : ∀ {c d : Context}, c.Alike k d → c.units = d.units := by
    intro c d hcd
    have hforall := hcd.units
    rwa [hk, List.forall₂_eq_eq_eq] at hforall
  refine look fun c d hcd => hx.bind fun a => look fun c' d' hcd' => ?_
  rw [hunits hcd, hunits hcd']
  exact pure _

end RunAlike

end Generation

end BuildAhead
