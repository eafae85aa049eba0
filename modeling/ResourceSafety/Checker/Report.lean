import ResourceSafety.Checker.Nesting
import ResourceSafety.Checker.Requests
import ResourceSafety.Diagnostic.Basic

/-!
# The end of a unit

Finishing closes everything that is open, decides the queued obligations, looks
for races once more, ends the solver session, and makes the report.  Faults on
the way do not keep the report from being made; they are returned beside it.

A unit is *accepted* when none of its diagnostics is an error.
-/

namespace ResourceSafety

open Logic (Action Solver)

/-- The outcome of a unit. -/
structure Report where
  /-- The unit. -/
  unit : String
  /-- The findings in report order. -/
  violations : List Violation
  /-- One diagnostic for each finding. -/
  diagnostics : List Diagnostic
  /-- The notes of the proofs. -/
  ledger : Ledger
  /-- The functions of the unit. -/
  decls : List Decl
  /-- No diagnostic is an error. -/
  accepted : Bool

/-- The proof notes of a report by function. -/
def Report.summary (r : Report) : Summary := r.ledger.summarize r.decls

namespace CompilationUnit

variable {σ : Type}

/-- The report of a unit as it is now. -/
def report (u : CompilationUnit σ) : Report :=
  let violations := Violation.sort u.violations
  let diagnostics := violations.map (Diagnostic.of u.unknownAsError)
  { unit := u.name, violations, diagnostics, ledger := u.discharger.ledger, decls := u.decls
    accepted := diagnostics.all (·.level != .error) }

variable [Solver σ]

/-- Closes the open blocks and functions from the inside, at most as many as
the fuel.  The first fault stops it.  `gaveUp n i` says whether the caller has
given up before obligation `i`, with `n` scopes to go. -/
def closeScopes (gaveUp : Nat → Nat → Bool) : Nat → StateM (CompilationUnit σ) (Option Fault)
  | 0 => return none
  | fuel + 1 => do
    let u ← get
    match u.current.blocks, u.functions with
    | b :: _, _ => next fuel (← closeBlock b.span)
    | [], f :: _ => next fuel (← endFunction (gaveUp (fuel + 1)) f.span)
    | [], [] => return none
where
  /-- Goes on unless there was a fault. -/
  next (fuel : Nat) (swept : Sweep) : StateM (CompilationUnit σ) (Option Fault) :=
    match swept.2 with
    | some fault => return some fault
    | none => closeScopes gaveUp fuel

/-- Ends the solver session. -/
def closeSession : StateM (CompilationUnit σ) (Option Fault) := do
  let u ← get
  let (r, d) := Discharger.close.perform u.discharger
  set { u with discharger := d }
  match r with
  | .ok () => return none
  | .error fault => return some (.solverUnavailable "close session" (some fault.message))

/-- Closes the unit.  The result is its report, unless it was closed before,
and the faults on the way. -/
def finish (gaveUp : Nat → Nat → Bool) :
    StateM (CompilationUnit σ) (Option Report × Option Fault) := do
  let u ← get
  if u.finished then return (none, some (.unitFinished u.name))
  let inner ← closeScopes gaveUp u.scopeCount
  let (_, queued) ← flushQueue (gaveUp 0)
  let (_, outer) ← leaveFrame u.root.span
  modify fun u => u.collectAll u.capabilities.validate
  let session ← closeSession
  modify ({ · with finished := true })
  let faults := inner.toList ++ (queued.map (.within "flush obligations")).toList ++
    outer.toList ++ session.toList
  return (some (← get).report, Fault.join? faults)

end CompilationUnit

end ResourceSafety
