import BuildAhead.Proofs.Generation.Actions
import BuildAhead.Services.Discovery

set_option autoImplicit false

/-!
# Services: what a discovery keeps

A discovery by itself only leaves messages. What its substitutions keep, whatever messages there
are, the discovery keeps.
-/

namespace BuildAhead.Discovery

variable {P : Context → Prop} {d : Discovery}

theorem keeps_replacement
    (hsubstitutions : ∀ name s, d.substitutions.get? name = some s → Generation.Keeps P s.generate)
    (progress : Progress) (name : String) : Generation.Keeps P (d.replacement progress name) := by
  unfold replacement
  cases hs : d.substitutions.get? name with
  | none => exact .pure _
  | some s =>
    cases progress.generated.get? name with
    | some units => exact .pure _
    | none => exact (hsubstitutions name s hs).trackUnits.bind fun _ => .pure _

theorem keeps_collect
    (hsubstitutions : ∀ name s, d.substitutions.get? name = some s → Generation.Keeps P s.generate)
    (hmessages : ∀ c diagnostics, P c → P { c with diagnostics }) (capability : String)
    (progress : Progress) (seen names : List String) :
    Generation.Keeps P (d.collect capability progress seen names) := by
  induction names generalizing progress seen with
  | nil => exact .pure _
  | cons name rest ih =>
    unfold collect
    split
    · exact (Generation.Keeps.update fun c hc => hmessages c _ hc).bind fun _ => ih progress seen
    · split
      · exact ih progress seen
      · refine (keeps_replacement hsubstitutions progress name).bind fun replaced => ?_
        by_cases hempty : replaced.1.isEmpty = true
        · simp only [hempty, if_true]
          exact (ih _ _).bind fun _ => .pure _
        · simp only [hempty, Bool.false_eq_true, if_false]
          exact ih _ _

/-- A discovery keeps what its substitutions keep, when messages do not matter. -/
theorem keeps_run
    (hsubstitutions : ∀ name s, d.substitutions.get? name = some s → Generation.Keeps P s.generate)
    (hmessages : ∀ c diagnostics, P c → P { c with diagnostics }) : Generation.Keeps P d.run := by
  have hlook : Generation.Keeps P (get : Generation Context) := by
    intro c a c' hc hrun
    cases hrun
    exact hc
  have hscan : ∀ capability progress, Generation.Keeps P (d.scan capability progress) :=
    fun capability _ =>
      (Generation.Keeps.update fun c hc => hmessages c _ hc).bind fun _ => hlook.bind fun _ =>
        (keeps_collect hsubstitutions hmessages capability _ _ _).bind fun _ => hlook.bind fun _ =>
          (Generation.Keeps.update fun c hc => hmessages c _ hc).bind fun _ => .pure _
  have hscanAll : ∀ progress capabilities,
      Generation.Keeps P (d.scanAll progress capabilities) := by
    intro progress capabilities
    induction capabilities generalizing progress with
    | nil => exact .pure _
    | cons capability rest ih => exact (hscan capability progress).bind fun progress => ih progress
  exact (hscanAll {} _).bind fun _ =>
    (Generation.Keeps.update fun c hc => hmessages c _ hc).bind fun _ => .pure _

end BuildAhead.Discovery
