import BuildAhead.Proofs.Generation.Naming
import BuildAhead.Proofs.Services.Discovery

set_option autoImplicit false

/-!
# Services: the names that a discovery takes

A discovery registers nothing but what its substitutions do. A discovery with one substitution
therefore takes the names of this one, or none, and fails for the reasons of this one, or not at all:
the substitution is run when its candidate is found for a scanned service and is not rejected, and
never twice.
-/

namespace BuildAhead

namespace Generation

variable {α β : Type}

/-- The names are taken, and the input is decided upon, only if a flag is set. -/
def RegistersIf (base : Context) (x : Generation α) (flag : Bool) (slots : List Slot)
    (accepts : Prop) (post : α → Prop) : Prop :=
  Registers base x (if flag then slots else []) (flag = true → accepts) post

namespace RegistersIf

variable {base : Context} {x : Generation α} {f : α → Generation β} {first second flag : Bool}
  {slots : List Slot} {accepts : Prop} {post : α → Prop} {post' : β → Prop}

theorem quiet (hx : Registers base x [] True post) : RegistersIf base x false slots accepts post :=
  hx.congr (by simp)

theorem always (hx : Registers base x slots accepts post) :
    RegistersIf base x true slots accepts post :=
  hx.congr (by simp)

/-- One of two actions at most takes the names. -/
theorem bind (hx : RegistersIf base x first slots accepts post)
    (hf : ∀ a, post a → RegistersIf base (f a) second slots accepts post')
    (hflag : flag = (first || second)) (hone : (first && second) = false) :
    RegistersIf base (x >>= f) flag slots accepts post' := by
  have hbind := Registers.bind hx hf
  subst hflag
  unfold RegistersIf
  cases first with
  | false => exact hbind.congr (by simp)
  | true =>
    have hsecond : second = false := hone
    subst hsecond
    rw [if_pos rfl, if_neg Bool.false_ne_true, List.append_nil] at hbind
    exact hbind.congr (by simp)

/-- What is due is done by the first of two actions if it can be, and only otherwise by the
second. -/
theorem bindDue {due : Bool} (hx : RegistersIf base x (due && first) slots accepts post)
    (hf : ∀ a, post a → RegistersIf base (f a) (due && !first && second) slots accepts post') :
    RegistersIf base (x >>= f) (due && (first || second)) slots accepts post' := by
  refine hx.bind hf ?_ ?_
  · cases due with
    | false => rfl
    | true =>
      cases first with
      | false => rfl
      | true => rfl
  · cases first with
    | false => simp
    | true => simp

/-- Behind an action that takes no name and never fails. -/
theorem quietly (hx : Registers base x [] True post)
    (hf : ∀ a, post a → RegistersIf base (f a) flag slots accepts post') :
    RegistersIf base (x >>= f) flag slots accepts post' :=
  Registers.quietly hx hf

/-- In front of an action that takes no name and never fails. -/
theorem thenQuietly (hx : RegistersIf base x flag slots accepts post)
    (hf : ∀ a, post a → Registers base (f a) [] True post') :
    RegistersIf base (x >>= f) flag slots accepts post' :=
  Registers.thenQuietly hx hf

end RegistersIf

end Generation

namespace Discovery

open Generation (Registers RegistersIf)

/-- The discovery replaces at most one candidate, by an action that takes these names. -/
def ReplacesOnly (d : Discovery) (base : Context) (loader : String) (slots : List Slot)
    (accepts : Prop) : Prop :=
  ∀ name s, d.substitutions.get? name = some s →
    name = loader ∧ Registers base s.generate slots accepts fun _ => True

/-- Whether the substitution of a candidate is still to be run. -/
def isDue (d : Discovery) (loader : String) (progress : Progress) : Bool :=
  d.substitutions.contains loader && !progress.generated.contains loader

/-- Whether a candidate is among names that were found, and neither rejected nor seen before. -/
def isMet (d : Discovery) (loader : String) (seen names : List String) : Bool :=
  names.contains loader && !seen.contains loader && !d.settings.rejected.contains loader

/-- Whether a candidate is found for one of some services and not rejected. -/
def isFound (d : Discovery) (loader : String) (model : ApplicationModel)
    (capabilities : List String) : Bool :=
  (capabilities.any fun capability => (model.discover capability).contains loader) &&
    !d.settings.rejected.contains loader

variable {d : Discovery} {base : Context} {loader : String} {slots : List Slot} {accepts : Prop}

theorem isMet_iff {seen names : List String} : d.isMet loader seen names = true ↔
    loader ∈ names ∧ loader ∉ seen ∧ d.settings.rejected.contains loader = false := by
  unfold isMet
  simp [and_assoc]

/-- A name that is rejected or was seen before is none that is met. -/
theorem isMet_cons_of_skipped {name : String} {seen rest : List String}
    (hskipped : d.settings.rejected.contains name = true ∨ name ∈ seen) :
    d.isMet loader seen (name :: rest) = d.isMet loader seen rest := by
  rw [Bool.eq_iff_iff, isMet_iff, isMet_iff, List.mem_cons]
  constructor
  · rintro ⟨rfl | hmem, hunseen, hkept⟩
    · rcases hskipped with hrejected | hseen
      · rw [hrejected] at hkept
        cases hkept
      · exact absurd hseen hunseen
    · exact ⟨hmem, hunseen, hkept⟩
  · rintro ⟨hmem, hunseen, hkept⟩
    exact ⟨.inr hmem, hunseen, hkept⟩

/-- A new name that is not rejected is met, and none that comes behind is met for it. -/
theorem isMet_cons_of_new {name : String} {seen rest : List String}
    (hkept : d.settings.rejected.contains name = false) (hunseen : name ∉ seen) :
    d.isMet loader seen (name :: rest) = (name == loader || d.isMet loader (name :: seen) rest) := by
  rw [Bool.eq_iff_iff, Bool.or_eq_true, isMet_iff, isMet_iff, List.mem_cons, List.mem_cons,
    beq_iff_eq]
  by_cases hname : name = loader
  · subst hname
    simp [hkept, hunseen]
  · simp [hname, Ne.symm hname]

/-- A substitution is run when a name is replaced for which it is due, and is not due afterwards. -/
theorem registers_replacement (h : d.ReplacesOnly base loader slots accepts) (progress : Progress)
    (name : String) :
    RegistersIf base (d.replacement progress name) (d.isDue loader progress && name == loader) slots
      accepts fun result =>
        d.isDue loader result.2 = (d.isDue loader progress && name != loader) := by
  unfold replacement
  cases hs : d.substitutions.get? name with
  | none =>
    have hdue : (d.isDue loader progress && name == loader) = false := by
      by_cases hname : name = loader
      · subst hname
        simp [isDue, Dict.contains, hs]
      · simp [hname]
    rw [hdue]
    refine .quiet (.pure ?_)
    by_cases hname : name = loader
    · subst hname
      simp [isDue, Dict.contains, hs]
    · simp [hname]
  | some s =>
    obtain ⟨rfl, hgenerate⟩ := h name s hs
    cases hgenerated : progress.generated.get? name with
    | some units =>
      have hdue : d.isDue name progress = false := by simp [isDue, Dict.contains, hgenerated]
      rw [hdue, Bool.false_and]
      exact .quiet (.pure (by simp [hdue]))
    | none =>
      have hdue : d.isDue name progress = true := by
        simp [isDue, Dict.contains, hs, hgenerated]
      rw [hdue]
      simp only [beq_self_eq_true, Bool.and_self, bne_self_eq_false, Bool.and_false]
      refine .always (hgenerate.trackUnits.thenQuietly ?_)
      rintro ⟨-, units⟩ -
      refine .pure ?_
      simp [isDue, Dict.contains, Dict.get?_insert]

/-- Going through found names runs the substitution if it is due and its candidate is met. -/
theorem registers_collect (h : d.ReplacesOnly base loader slots accepts) (capability : String)
    (progress : Progress) (seen names : List String) :
    RegistersIf base (d.collect capability progress seen names)
      (d.isDue loader progress && d.isMet loader seen names) slots accepts fun result =>
        d.isDue loader result.2 = (d.isDue loader progress && !d.isMet loader seen names) := by
  induction names generalizing progress seen with
  | nil =>
    have hmet : d.isMet loader seen [] = false := rfl
    rw [hmet, Bool.and_false]
    exact .quiet (.pure (by simp))
  | cons name rest ih =>
    unfold collect
    by_cases hrejected : d.settings.rejected.contains name = true
    · rw [if_pos hrejected, isMet_cons_of_skipped (.inl hrejected)]
      exact .quietly (.diagnose _ _) fun _ _ => ih progress seen
    rw [if_neg hrejected]
    by_cases hseen : seen.contains name = true
    · rw [if_pos hseen, isMet_cons_of_skipped (.inr (List.contains_iff_mem.1 hseen))]
      exact ih progress seen
    rw [if_neg hseen]
    have hmet : d.isMet loader seen (name :: rest) =
        (name == loader || d.isMet loader (name :: seen) rest) :=
      isMet_cons_of_new (Bool.eq_false_iff.2 hrejected) fun hmem =>
        hseen (List.contains_iff_mem.2 hmem)
    -- what is still to be done behind the replacement does not depend on the units
    have hbehind : ∀ units progress₁,
        d.isDue loader progress₁ = (d.isDue loader progress && name != loader) →
        RegistersIf base
          (if units.isEmpty = true then do
            let collected ← d.collect capability progress₁ (name :: seen) rest
            return (name :: collected.1, collected.2)
          else
            d.collect capability
              { progress₁ with substitutes := progress₁.substitutes.add capability units }
              (name :: seen) rest)
          (d.isDue loader progress && name != loader && d.isMet loader (name :: seen) rest) slots
          accepts fun result => d.isDue loader result.2 =
            (d.isDue loader progress &&
              !(name == loader || d.isMet loader (name :: seen) rest)) := by
      intro units progress₁ hdue
      have hpost : (d.isDue loader progress && name != loader &&
          !d.isMet loader (name :: seen) rest) = (d.isDue loader progress &&
            !(name == loader || d.isMet loader (name :: seen) rest)) := by
        rw [bne, Bool.not_or, Bool.and_assoc]
      rw [← hdue, ← hpost, ← hdue]
      split
      · refine (ih progress₁ (name :: seen)).thenQuietly ?_
        intro result hresult
        exact .pure hresult
      · exact ih _ (name :: seen)
    rw [hmet]
    exact (registers_replacement h progress name).bindDue fun result hresult =>
      hbehind result.1 result.2 hresult

/-- Scanning services runs the substitution if it is due and its candidate is found. -/
theorem registers_scan (h : d.ReplacesOnly base loader slots accepts) (capability : String)
    (progress : Progress) :
    RegistersIf base (d.scan capability progress)
      (d.isDue loader progress && d.isFound loader base.application [capability]) slots accepts
      fun progress' => d.isDue loader progress' =
        (d.isDue loader progress && !d.isFound loader base.application [capability]) := by
  have hmet : ∀ c, base.Continues c →
      d.isMet loader [] (c.application.discover capability) =
        d.isFound loader base.application [capability] := by
    intro c hc
    rw [hc.application]
    simp [isMet, isFound]
  refine .quietly (.diagnose _ _) fun _ _ => .quietly .look fun c hc => ?_
  rw [← hmet c hc]
  refine (registers_collect h capability progress [] _).thenQuietly ?_
  rintro ⟨pending, progress'⟩ hdue
  refine Registers.look.quietly fun c' _ => ?_
  refine Registers.quietly (.update fun _ => ⟨rfl, rfl, rfl, rfl, rfl, rfl, rfl⟩) fun _ _ => ?_
  exact .pure hdue

theorem registers_scanAll (h : d.ReplacesOnly base loader slots accepts) (progress : Progress)
    (capabilities : List String) :
    RegistersIf base (d.scanAll progress capabilities)
      (d.isDue loader progress && d.isFound loader base.application capabilities) slots accepts
      fun _ => True := by
  induction capabilities generalizing progress with
  | nil =>
    have hfound : d.isFound loader base.application [] = false := rfl
    rw [hfound, Bool.and_false]
    exact .quiet (.pure trivial)
  | cons capability rest ih =>
    have hfound : d.isFound loader base.application (capability :: rest) =
        (d.isFound loader base.application [capability] ||
          d.isFound loader base.application rest) := by
      simp [isFound, Bool.and_or_distrib_right]
    have hrest : ∀ progress', d.isDue loader progress' =
        (d.isDue loader progress && !d.isFound loader base.application [capability]) →
        RegistersIf base (d.scanAll progress' rest)
          (d.isDue loader progress && !d.isFound loader base.application [capability] &&
            d.isFound loader base.application rest) slots accepts fun _ => True := by
      intro progress' hdue
      rw [← hdue]
      exact ih progress'
    rw [hfound]
    exact (registers_scan h capability progress).bindDue hrest

/-- A discovery runs its substitution if the candidate is found for a scanned service and not
rejected. It has a table for each scanned service. -/
theorem registers_run (hops : d.ByOperations) (h : d.ReplacesOnly base loader slots accepts) :
    RegistersIf base d.run
      (d.substitutions.contains loader &&
        d.isFound loader base.application d.settings.serviceTypes) slots accepts
      fun result => result.tables.keys = (NameSet.ofList d.settings.serviceTypes).toList := by
  have hdue : d.isDue loader {} = d.substitutions.contains loader := by
    have hnone : (∅ : Dict (List CodeUnit)).contains loader = false := rfl
    simp [isDue, hnone]
  have hrun : RegistersIf base d.run
      (d.substitutions.contains loader &&
        d.isFound loader base.application d.settings.serviceTypes) slots accepts
      fun _ => True := by
    rw [← hdue]
    refine (registers_scanAll h {} d.settings.serviceTypes).thenQuietly fun progress _ => ?_
    refine Registers.quietly (.update fun _ => ⟨rfl, rfl, rfl, rfl, rfl, rfl, rfl⟩) fun _ _ => ?_
    exact .pure trivial
  refine Registers.strengthen hrun ?_
  intro c result c' _ hresult
  obtain ⟨outcome, after, calls, hnoted, -, -, -, hends⟩ := d.exists_notedRun c hops
  rw [hresult] at hnoted
  cases hnoted
  rcases hends with ⟨result', hok, hfinds⟩ | ⟨e, he, -⟩
  · cases hok
    refine eq_of_ascending_of_mem_iff result.tables.keys_ascending (NameSet.ascending _) ?_
    intro capability
    rw [Dict.mem_keys, hfinds.has_table, NameSet.mem_ofList]
  · cases he

end Discovery

end BuildAhead
