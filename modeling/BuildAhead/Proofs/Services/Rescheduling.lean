import BuildAhead.Proofs.Generation.Alike
import BuildAhead.Services.Discovery

set_option autoImplicit false

/-!
# Services: discoveries under different schedules

The candidates of a service are checked side by side. Two runs of a discovery can be scheduled in
different ways and end alike all the same, whenever its substitutions do: only messages about the
candidates of one service can change places.
-/

namespace BuildAhead.Discovery

open Generation (RunAlike)

variable {d : Discovery}

/-- Contexts that the runs of a discovery may leave under different schedules. -/
abbrev rescheduled : Likeness := .rescheduled category

/-- Each substitution of a discovery ends alike, however the discovery is scheduled. -/
def SubstitutesAlike (d : Discovery) : Prop :=
  ∀ name s, d.substitutions.get? name = some s → RunAlike rescheduled s.generate s.generate

theorem runAlike_diagnose (other message : String) :
    RunAlike rescheduled (Generation.diagnose other message) (Generation.diagnose other message) :=
  .log fun _ _ hc => Diagnostics.Rescheduled.add hc.log other message

theorem runAlike_replacement (h : d.SubstitutesAlike) (progress : Progress) (name : String) :
    RunAlike rescheduled (d.replacement progress name) (d.replacement progress name) := by
  unfold replacement
  cases hs : d.substitutions.get? name with
  | none => exact .pure _
  | some s =>
    cases progress.generated.get? name with
    | some units => exact .pure _
    | none => exact ((h name s hs).trackUnits rfl).bind fun _ => .pure _

theorem runAlike_collect (h : d.SubstitutesAlike) (capability : String) (progress : Progress)
    (seen names : List String) :
    RunAlike rescheduled (d.collect capability progress seen names)
      (d.collect capability progress seen names) := by
  induction names generalizing progress seen with
  | nil => exact .pure _
  | cons name rest ih =>
    unfold collect
    split
    · exact (runAlike_diagnose _ _).bind fun _ => ih progress seen
    · split
      · exact ih progress seen
      · refine (runAlike_replacement h progress name).bind fun replaced => ?_
        by_cases hempty : replaced.1.isEmpty = true
        · simp only [hempty, if_true]
          exact (ih _ _).bind fun _ => .pure _
        · simp only [hempty, Bool.false_eq_true, if_false]
          exact ih _ _

/-- Where two schedules differ, the messages about the candidates of a service do. -/
theorem runAlike_scan (h : d.SubstitutesAlike) (capability : String) (progress : Progress) :
    RunAlike rescheduled (d.scan capability progress) (d.scan capability progress) := by
  refine (runAlike_diagnose _ _).bind fun _ => .look fun c c' hc => ?_
  rw [hc.application]
  refine (runAlike_collect h capability progress [] _).bind fun collected => .look fun c c' hc => ?_
  rw [hc.application, hc.analyzer]
  exact (RunAlike.log fun c c' hc =>
    Diagnostics.Rescheduled.addInterleaved hc.log c.schedule c'.schedule _).bind fun _ => .pure _

theorem runAlike_scanAll (h : d.SubstitutesAlike) (progress : Progress)
    (capabilities : List String) :
    RunAlike rescheduled (d.scanAll progress capabilities) (d.scanAll progress capabilities) := by
  induction capabilities generalizing progress with
  | nil => exact .pure _
  | cons capability rest ih =>
    exact (runAlike_scan h capability progress).bind fun progress => ih progress

/-- Two runs of a discovery end alike, however they are scheduled. -/
theorem runAlike_run (h : d.SubstitutesAlike) : RunAlike rescheduled d.run d.run := by
  refine (runAlike_scanAll h {} _).bind fun progress => ?_
  exact (RunAlike.log fun _ _ hc => Diagnostics.Rescheduled.addAll hc.log category _).bind
    fun _ => .pure _

end BuildAhead.Discovery
