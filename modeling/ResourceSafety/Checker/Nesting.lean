import ResourceSafety.Checker.State

/-!
# Functions, blocks and branches

The requests that open and close.  Closing gives findings: the capabilities
that leaked, the races of the frame, and at the end of a function the
obligations that were not proved.  A *sweep* is the findings of a closing
together with the fault that stopped it, if there was one.

A branch takes the state of all open bodies when it opens.  Each arm starts
from that state, and the ends of the arms are joined when the branch closes.
-/

namespace ResourceSafety

open Logic (Action Solver)

/-- The findings of a closing and the fault that stopped it. -/
abbrev Sweep := List Violation × Option Fault

/-- One closing after another.  A fault stops the first before the second. -/
def Sweep.andThen {σ : Type} (first second : StateM σ Sweep) : StateM σ Sweep := do
  let (found, fault) ← first
  match fault with
  | some _ => return (found, fault)
  | none =>
    let (more, fault) ← second
    return (found ++ more, fault)

namespace CompilationUnit

variable {σ : Type}

/-! ## Blocks -/

/-- Opens a block. -/
def enterBlock (site : Span) : Action (CompilationUnit σ) Unit := do
  requireLive
  modify fun u =>
    { u.changeCurrent fun b =>
        { b with tracker := b.tracker.enter, blocks := { span := site } :: b.blocks } with
      capabilities := u.capabilities.enter }

/-- Closes the innermost capability frame. -/
def leaveFrame (site : Span) : StateM (CompilationUnit σ) Sweep := do
  let u ← get
  match u.capabilities.exit site with
  | .error fault => return ([], some fault)
  | .ok (found, c) =>
    set ({ u with capabilities := c }.collectAll found)
    return (found, none)

/-- Closes the innermost block of the innermost body. -/
def closeBlock (site : Span) : StateM (CompilationUnit σ) Sweep := do
  let u ← get
  match u.current.blocks, u.current.tracker.exit with
  | [], _ => return ([], some (.scopeUnderflow "block"))
  | _ :: _, .error fault => return ([], some fault)
  | _ :: blocks, .ok tracker =>
    set (u.changeCurrent ({ · with tracker, blocks }))
    leaveFrame site

/-- Closes the innermost block. -/
def exitBlock (site : Span) : StateM (CompilationUnit σ) Sweep := do
  let u ← get
  if u.finished then return ([], some (.unitFinished u.name))
  closeBlock site

/-- Closes as many blocks as are listed. -/
def closeBlocks (site : Span) : List Block → StateM (CompilationUnit σ) Sweep
  | [] => return ([], none)
  | _ :: rest => Sweep.andThen (closeBlock site) (closeBlocks site rest)

/-! ## Functions -/

/-- Opens a function. -/
def beginFunction (name : String) (site : Span) : Action (CompilationUnit σ) Unit := do
  requireLive
  modify fun u =>
    { u with
      capabilities := u.capabilities.enter
      functions := { id := u.nextBody, name, span := site } :: u.functions
      nextBody := u.nextBody + 1 }

/-- Forgets the innermost function and keeps its declaration. -/
def dropFunction (site : Span) : StateM (CompilationUnit σ) Sweep := do
  modify fun u =>
    match u.functions with
    | [] => u
    | f :: rest =>
      { u with functions := rest, decls := u.decls ++ [⟨f.name, f.span.union site⟩] }
  return ([], none)

variable [Solver σ]

/-- Decides the queued obligations.  `gaveUp i` says whether the caller has given up before
obligation `i`. -/
def flushQueue (gaveUp : Nat → Bool) : StateM (CompilationUnit σ) Sweep := do
  let u ← get
  let ((found, fault), d) := (Discharger.flush gaveUp).run u.discharger
  set ({ u with discharger := d }.collectAll found)
  return (found, fault)

/-- Decides the obligations queued so far and closes the innermost function,
with the blocks left open in it. -/
def endFunction (gaveUp : Nat → Bool) (site : Span) : StateM (CompilationUnit σ) Sweep := do
  let u ← get
  if u.finished then return ([], some (.unitFinished u.name))
  match u.functions with
  | [] => return ([], some (.scopeUnderflow "function"))
  | f :: _ =>
    Sweep.andThen (flushQueue gaveUp) <| Sweep.andThen (closeBlocks site f.blocks) <|
      Sweep.andThen (leaveFrame site) (dropFunction site)

/-! ## Branches -/

omit [Solver σ]

/-- The state at this point of the bodies with the given numbers. -/
def moment (u : CompilationUnit σ) (ids : List Nat) : Moment :=
  { bodies := ids.map fun id =>
      (id, ((u.bodies.find? (·.id == id)).map (·.tracker.snapshot)).getD [])
    capabilities := u.capabilities.snapshot }

/-- Opens a branch.  Its first arm begins at once. -/
def beginBranch : Action (CompilationUnit σ) Unit := do
  requireLive
  modify fun u =>
    { u with
      forks := { entry := u.moment (u.bodies.map (·.id)) } :: u.forks
      capabilities := u.capabilities.enterBranch }

/-- The unit taken back to an earlier state. -/
def rewind (u : CompilationUnit σ) (m : Moment) : CompilationUnit σ :=
  { u.mapBodies fun b =>
      match m.bodies.lookup b.id with
      | some s => { b with tracker := b.tracker.restore s }
      | none => b with
    capabilities := u.capabilities.restore m.capabilities }

/-- The branch with its present arm finished. -/
def Fork.finishArm (f : Fork) (u : CompilationUnit σ) : Fork :=
  { f with arms := f.arms ++ [u.moment (f.entry.bodies.map Prod.fst)] }

/-- Ends the present arm and begins the next one. -/
def nextArm : Action (CompilationUnit σ) Unit := do
  requireLive
  let u ← get
  match u.forks with
  | [] => throw (.scopeUnderflow "branch")
  | f :: rest =>
    set ({ u with forks := Fork.finishArm f u :: rest }.rewind f.entry)
    onCapabilities (·.nextArm)

/-- The unit where the arms of a branch meet. -/
def joinArms (u : CompilationUnit σ) (site : Span) (arms : List Moment) : CompilationUnit σ :=
  { u.mapBodies fun b =>
      { b with tracker := b.tracker.merge site (arms.filterMap (·.bodies.lookup b.id)) } with
    capabilities := u.capabilities.merge (arms.map (·.capabilities)) }

/-- Ends the last arm and joins all arms.  A branch with one arm may also be
passed over, so the state at its entry is its second arm. -/
def endBranch (site : Span) : Action (CompilationUnit σ) Unit := do
  requireLive
  let u ← get
  match u.forks with
  | [] => throw (.scopeUnderflow "branch")
  | f :: rest =>
    let f := Fork.finishArm f u
    set { u with forks := rest }
    onCapabilities (·.exitBranch site)
    let arms := if f.arms.length = 1 then f.arms ++ [f.entry] else f.arms
    modify (·.joinArms site arms)

end CompilationUnit

end ResourceSafety
