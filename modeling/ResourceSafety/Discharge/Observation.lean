import ResourceSafety.Discharge.Obligation
import ResourceSafety.Discharge.Profile
import ResourceSafety.Ledger.Summary
import ResourceSafety.Violation

/-!
# Observations

What a run counts: obligations by kind and outcome, solver decisions by
profile, and violations by kind.  Every observation belongs to one series.
-/

namespace ResourceSafety

/-- Something that happened during a run. -/
inductive Observation
  /-- An obligation was decided. -/
  | obligation (kind : String) (outcome : Outcome)
  /-- A solver was asked. -/
  | decision (profile : Profile)
  /-- A violation was reported. -/
  | violation (kind : ViolationKind)
deriving Repr, DecidableEq

namespace Observation

/-- The series that an observation is counted in. -/
def series : Observation → String
  | obligation kind outcome =>
    "capsafe_obligations_total kind=" ++ kind ++ " outcome=" ++ outcome.name
  | decision profile => "capsafe_solver_seconds profile=" ++ profile.name
  | violation kind => "capsafe_violations_total kind=" ++ kind.name

/-- The number of observations in each series. -/
def counts (os : List Observation) : Counts := Counts.ofKeys (os.map series)

end Observation

end ResourceSafety
