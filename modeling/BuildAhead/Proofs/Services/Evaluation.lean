import BuildAhead.Proofs.Collection.Dict
import BuildAhead.Services.Discovery

set_option autoImplicit false

/-!
# Services: what becomes of a candidate

A candidate is kept exactly when it loads, has a way to be made, and is available or included by
force; it is unavailable exactly when it loads and is neither of these. What the messages say plays
no part.
-/

namespace BuildAhead

/-- Whether the requirements of a loaded candidate are met: it has none, or its probe can be made
and is accepted. -/
def LoadedCandidate.available (l : LoadedCandidate) (analyzer : Analyzer) : Bool :=
  match l.probe with
  | none => true
  | some (.ok probe) => analyzer.isAvailable probe
  | some (.error _) => false

theorem ApplicationModel.load_name {model : ApplicationModel} {name : String} {l : LoadedCandidate}
    (hload : model.load name = .ok l) : l.name = name := by
  unfold load at hload
  split at hload
  · cases hload
  · split at hload
    · cases hload
    · cases hload
      rfl

/-- The verdict of the check that a candidate gets. -/
theorem AvailabilityCheck.run_ofCandidate (l : LoadedCandidate) (capability : String)
    (analyzer : Analyzer) :
    ((ofCandidate l).run l capability analyzer).1 = l.available analyzer := by
  unfold ofCandidate LoadedCandidate.available
  rcases hprobe : l.probe with _ | _ | probe
  · rfl
  · simp [run, hprobe]
  · simp [run, hprobe]

namespace Discovery

section Evaluating

variable {settings : DiscoverySettings} {model : ApplicationModel} {analyzer : Analyzer}
  {capability name : String}

/-- A candidate is kept under its name, in this form. -/
def Keeps (settings : DiscoverySettings) (model : ApplicationModel) (analyzer : Analyzer)
    (e : ServiceCandidate) : Prop :=
  ∃ l, model.load e.name = .ok l ∧ l.implementation = some e.implementation ∧
    e.available = l.available analyzer ∧ e.forced = !l.available analyzer ∧
    (l.available analyzer = true ∨ settings.forceInclude.contains e.name = true)

/-- A candidate is unavailable and configures a namespace. -/
def Lacks (settings : DiscoverySettings) (model : ApplicationModel) (analyzer : Analyzer)
    (name scope : String) : Prop :=
  ∃ l, model.load name = .ok l ∧ l.available analyzer = false ∧
    settings.forceInclude.contains name = false ∧ l.configurationScope = some scope

theorem evaluate_of_load {l : LoadedCandidate} (hload : model.load name = .ok l) :
    (evaluate settings model analyzer capability name).1 =
      (classify settings l (l.available analyzer)).1 := by
  unfold evaluate
  rw [hload, ← AvailabilityCheck.run_ofCandidate l capability analyzer]

theorem evaluate_of_error {e : LoadError} (hload : model.load name = .error e) :
    (evaluate settings model analyzer capability name).1 = .dropped := by
  unfold evaluate
  rw [hload]

theorem evaluate_eq_kept_iff {e : ServiceCandidate} :
    (evaluate settings model analyzer capability name).1 = .kept e ↔
      e.name = name ∧ Keeps settings model analyzer e := by
  cases hload : model.load name with
  | error failure =>
    rw [evaluate_of_error hload]
    constructor
    · intro hdropped
      cases hdropped
    · intro hgiven
      obtain ⟨rfl, l, hl, -⟩ := hgiven
      rw [hload] at hl
      cases hl
  | ok l =>
    have hname := ApplicationModel.load_name hload
    rw [evaluate_of_load hload]
    have hkeeps : e.name = name ∧ Keeps settings model analyzer e ↔
        e.name = name ∧ l.implementation = some e.implementation ∧
          e.available = l.available analyzer ∧ e.forced = !l.available analyzer ∧
          (l.available analyzer = true ∨ settings.forceInclude.contains name = true) := by
      constructor
      · intro hgiven
        obtain ⟨rfl, l', hl', hrest⟩ := hgiven
        rw [hload] at hl'
        cases hl'
        exact ⟨rfl, hrest⟩
      · intro hgiven
        obtain ⟨rfl, hrest⟩ := hgiven
        exact ⟨rfl, l, hload, hrest⟩
    rw [hkeeps]
    obtain ⟨eName, eKind, eAvailable, eForced⟩ := e
    unfold classify
    rw [hname]
    cases havailable : l.available analyzer <;>
      cases hforced : settings.forceInclude.contains name <;>
      cases himplementation : l.implementation <;>
      simp [eq_comm]

theorem evaluate_eq_unavailable_iff {scope : String} :
    (evaluate settings model analyzer capability name).1 = .unavailable (some scope) ↔
      Lacks settings model analyzer name scope := by
  cases hload : model.load name with
  | error failure =>
    rw [evaluate_of_error hload]
    constructor
    · intro hdropped
      cases hdropped
    · intro hgiven
      obtain ⟨l, hl, -⟩ := hgiven
      rw [hload] at hl
      cases hl
  | ok l =>
    have hname := ApplicationModel.load_name hload
    rw [evaluate_of_load hload]
    have hlacks : Lacks settings model analyzer name scope ↔
        l.available analyzer = false ∧ settings.forceInclude.contains name = false ∧
          l.configurationScope = some scope := by
      constructor
      · intro hgiven
        obtain ⟨l', hl', hrest⟩ := hgiven
        rw [hload] at hl'
        cases hl'
        exact hrest
      · intro hrest
        exact ⟨l, hload, hrest⟩
    rw [hlacks]
    unfold classify
    rw [hname]
    cases havailable : l.available analyzer <;>
      cases hforced : settings.forceInclude.contains name <;>
      cases himplementation : l.implementation <;>
      simp

end Evaluating

/-- What is kept is determined by its name. -/
theorem Keeps.unique {settings : DiscoverySettings} {model : ApplicationModel} {analyzer : Analyzer}
    {a b : ServiceCandidate} (ha : Keeps settings model analyzer a)
    (hb : Keeps settings model analyzer b) (hname : a.name = b.name) : a = b := by
  obtain ⟨la, hla, hkindA, havailableA, hforcedA, -⟩ := ha
  obtain ⟨lb, hlb, hkindB, havailableB, hforcedB, -⟩ := hb
  rw [hname, hlb] at hla
  cases hla
  obtain ⟨nameA, kindA, availableA, forcedA⟩ := a
  obtain ⟨nameB, kindB, availableB, forcedB⟩ := b
  simp only at hname hkindA hkindB havailableA havailableB hforcedA hforcedB
  rw [hkindA] at hkindB
  cases hkindB
  rw [hname, havailableA, havailableB, hforcedA, hforcedB]

end Discovery

end BuildAhead
