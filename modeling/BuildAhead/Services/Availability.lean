import BuildAhead.Application.Model

set_option autoImplicit false

/-!
# Services: availability

Whether a loaded candidate can be used. A candidate without requirements always can; one with
requirements can when its probe can be made and the environment's predicate accepts it.
-/

namespace BuildAhead

/-- A way to check a candidate. -/
inductive AvailabilityCheck where
  /-- accept every candidate -/
  | always
  /-- evaluate the requirements that the candidate has -/
  | requirements
  deriving DecidableEq, Repr, Inhabited

namespace AvailabilityCheck

/-- The check for a candidate: its requirements, if it has any. -/
def ofCandidate (c : LoadedCandidate) : AvailabilityCheck :=
  if c.probe.isSome then .requirements else .always

/-- What is said of a candidate that cannot be loaded or evaluated. -/
def missingDependencyMessage (capability name reason : String) : String :=
  "Skipping service " ++ capability ++ " implementation " ++ name ++
    " because of missing dependencies: " ++ reason

/-- The verdict of a check, and the messages that it leaves. -/
def run (check : AvailabilityCheck) (c : LoadedCandidate) (capability : String)
    (analyzer : Analyzer) : Bool × List String :=
  match check, c.probe with
  | .always, _ => (true, [])
  | .requirements, none => (true, [])
  | .requirements, some (.ok probe) => (analyzer.isAvailable probe, [])
  | .requirements, some (.error e) =>
    (false, [missingDependencyMessage capability c.name e.reason])

end AvailabilityCheck

end BuildAhead
