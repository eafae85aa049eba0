import ResourceSafety.Logic.BitBlaster
import ResourceSafety.Logic.External
import ResourceSafety.Text.Lower

/-!
# Solver profiles

A profile chooses the session that decides obligations.  The fast one works in
process on unsigned 64-bit integers.  The thorough one asks an external solver
about unbounded integers.  Each has its own time limit for one decision, used
when none is set.
-/

namespace ResourceSafety

open Logic (Action BitBlaster External SatSolver Solver SolverProgram)

/-- Which session decides obligations. -/
inductive Profile
  | fast
  | thorough
deriving Repr, DecidableEq

namespace Profile

/-- The name of a profile. -/
def name : Profile → String
  | fast => "fast"
  | thorough => "thorough"

/-- The profile with a name, blanks and case ignored.  No name means the fast
one. -/
def ofName? (text : String) : Option Profile :=
  match Text.lower (Text.trim text) with
  | "" => some fast
  | "fast" => some fast
  | "thorough" => some thorough
  | _ => none

/-- The time limit in milliseconds when none is set. -/
def defaultTimeout : Profile → UInt32
  | fast => 100
  | thorough => 2000

end Profile

/-- How obligations are decided. -/
structure SolverConfig where
  /-- The session to use. -/
  profile : Profile := .fast
  /-- The time limit in milliseconds; zero stands for the profile's own. -/
  timeout : UInt32 := 0
  /-- Where the external solver is; empty for the usual place. -/
  path : String := ""
  /-- The name under which proofs are noted; empty for the usual one. -/
  plugin : String := ""
deriving Repr, DecidableEq

namespace SolverConfig

/-- The time limit in force. -/
def effectiveTimeout (c : SolverConfig) : UInt32 :=
  if 0 < c.timeout then c.timeout else c.profile.defaultTimeout

/-- The name under which proofs are noted. -/
def noteName (c : SolverConfig) : String := if c.plugin == "" then "capsafe-verify" else c.plugin

end SolverConfig

/-- A session of either profile. -/
inductive Backend
  | inProcess (session : BitBlaster)
  | external (session : External)

namespace Backend

/-- A request to whichever session there is. -/
def request {α : Type} (onSession : Action BitBlaster α) (onExternal : Action External α) :
    Action Backend α := do
  match ← get with
  | .inProcess s =>
    let (r, s) := onSession.perform s
    set (inProcess s)
    MonadExcept.ofExcept r
  | .external s =>
    let (r, s) := onExternal.perform s
    set (external s)
    MonadExcept.ofExcept r

instance : Solver Backend where
  declareConstant name := request (Solver.declareConstant name) (Solver.declareConstant name)
  declareFunction name arity :=
    request (Solver.declareFunction name arity) (Solver.declareFunction name arity)
  assert name f := request (Solver.assert name f) (Solver.assert name f)
  check cancelled f := request (Solver.check cancelled f) (Solver.check cancelled f)
  close := request Solver.close Solver.close

/-- Opens a session of the configured profile.  `sat` is the SAT solver of a session in
process, `find` gives the program at a path, and `versions` reads its version. -/
def start (sat : SatSolver) (versions : Versions) (find : String → Option SolverProgram)
    (config : SolverConfig) (cancelled : Bool) : Except Fault Backend :=
  match config.profile with
  | .fast => .ok (inProcess { sat, timeout := config.effectiveTimeout })
  | .thorough =>
    (External.start versions find config.path config.effectiveTimeout.toNat cancelled).map external

/-- The lines that went to an external solver. -/
def sent : Backend → List String
  | inProcess _ => []
  | external s => s.sent

end Backend

end ResourceSafety
