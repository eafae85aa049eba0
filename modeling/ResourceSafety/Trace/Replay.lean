import ResourceSafety.Checker.Report
import ResourceSafety.Trace.Step

/-!
# Replaying a trace

Replaying walks the steps of a trace and makes the requests they stand for.
Findings never stop the walk.  The first fault does, and it is returned with the
place of the step that met it.

*Checking* a trace registers its types, replays it into a fresh unit and finishes
the unit.
-/

namespace ResourceSafety

open Logic (Action Solver)

/-- A point of a check at which the caller may have given up. -/
inductive Juncture
  /-- Before the step at a place. -/
  | step (place : String)
  /-- When the step at a place makes its request. -/
  | request (place : String)
  /-- Before an obligation is decided, where the function at a place ends. -/
  | obligation (place : String) (i : Nat)
  /-- Before an obligation is decided, where the unit is finished and a number of
  scopes are to go. -/
  | closing (scopes i : Nat)
deriving Repr, DecidableEq

/-- The caller never gives up. -/
abbrev Juncture.never : Juncture → Bool := fun _ => false

/-- The state of a replay. -/
structure Replay (σ : Type) where
  /-- The unit that is walked. -/
  unit : CompilationUnit σ
  /-- The symbols of the handles, newest first. -/
  handles : List (String × String) := []

namespace Replay

variable {σ : Type}

/-- A request to the unit. -/
def request {α : Type} (a : Action (CompilationUnit σ) α) : Action (Replay σ) α := do
  let (r, u) := a.perform (← get).unit
  modify fun p => { p with unit := u }
  MonadExcept.ofExcept r

/-- A closing of the unit.  Its findings are kept by the unit. -/
def closing (a : StateM (CompilationUnit σ) Sweep) : Action (Replay σ) Unit := do
  let ((_, fault), u) := a.run (← get).unit
  modify fun p => { p with unit := u }
  match fault with
  | some f => throw f
  | none => pure ()

/-- The span that a text denotes; no text is no span. -/
def span (file text : String) : Except Fault Span :=
  if text == "" then .ok .zero else (Span.ofCompact file text).mapError (.badSpan text)

/-- The span where a scope ends; without a text it is where the scope begins. -/
def endSpan (file : String) (site : Span) (text : String) : Except Fault Span :=
  if text == "" then .ok site else span file text

/-- The symbol of a handle. -/
def symbol (handle : String) : Action (Replay σ) String := do
  match (← get).handles.lookup handle with
  | some s => return s
  | none => throw (.unknownHandle handle)

/-- A part of a step, whose fault is returned with the place of the step. -/
def located {α : Type} (place : String) (a : Action (Replay σ) α) : Action (Replay σ) α :=
  tryCatch a fun f => throw (.within place f)

/-- What a range obligation is about, with handles as symbols. -/
def subject : RangeSubject → Action (Replay σ) Subject
  | .literal v => return .literal v
  | .handle name => return .handle (← symbol name)

end Replay

section

variable {σ : Type} [Solver σ]

open Replay

/-- Makes the request that an act stands for. -/
def Act.perform (cancelled : Bool) (site : Span) : Act → Action (Replay σ) Unit
  | .declare name type => do
    let t ← MonadExcept.ofExcept ((Ty.ofString type).mapError (.badType type))
    discard <| request (CompilationUnit.declare name (some t) site)
  | .access kind name => discard <| request (CompilationUnit.access kind name site)
  | .release name => request (CompilationUnit.release name site)
  | .use name => discard <| request (CompilationUnit.use name site)
  | .consume name => discard <| request (CompilationUnit.consume name site)
  | .share name => discard <| request (CompilationUnit.share name site)
  | .sync => request (CompilationUnit.sync site)
  | .fresh handle => do
    let s ← request (CompilationUnit.freshHandle cancelled handle)
    modify fun p => { p with handles := (handle, s) :: p.handles }
  | .assertShape handle dims => do
    let s ← symbol handle
    request (CompilationUnit.assertShape cancelled s dims)
  | .proveRange about lo hi => do
    let subject ← subject about
    request (CompilationUnit.require { subject, span := site, condition := .range lo hi })
  | .proveShape handle dims => do
    let s ← symbol handle
    request (CompilationUnit.require { subject := .handle s, span := site, condition := .shape dims })

mutual

/-- Replays a step at a place.  `file` is the file of its sites, and `gaveUp` says
where the caller has given up. -/
def Step.replay (gaveUp : Juncture → Bool) (file place : String) : Step → Action (Replay σ) Unit
  | .act what site =>
    located place do what.perform (gaveUp (.request place)) (← MonadExcept.ofExcept (span file site))
  | .function name site stop body => do
    let start ← located place do
      let start ← MonadExcept.ofExcept (span file site)
      request (CompilationUnit.beginFunction name start)
      return start
    Step.replayAll gaveUp file (bodyPlace place) 0 body
    located place do
      let last ← MonadExcept.ofExcept (endSpan file start stop)
      closing (CompilationUnit.endFunction (gaveUp <| .obligation place ·) last)
  | .block site stop body => do
    let start ← located place do
      let start ← MonadExcept.ofExcept (span file site)
      request (CompilationUnit.enterBlock start)
      return start
    Step.replayAll gaveUp file (bodyPlace place) 0 body
    located place do
      let last ← MonadExcept.ofExcept (endSpan file start stop)
      closing (CompilationUnit.exitBlock last)
  | .thread tag site body => do
    located place do
      discard <| MonadExcept.ofExcept (span file site)
      request (CompilationUnit.enterThread tag)
    Step.replayAll gaveUp file (bodyPlace place) 0 body
    located place (request CompilationUnit.exitThread)
  | .branch site arms => do
    let start ← located place do
      let start ← MonadExcept.ofExcept (span file site)
      request CompilationUnit.beginBranch
      return start
    Step.replayArms gaveUp file place 0 arms
    located place (request (CompilationUnit.endBranch start))

/-- Replays steps in order, numbered from `i`. -/
def Step.replayAll (gaveUp : Juncture → Bool) (file list : String) (i : Nat) :
    List Step → Action (Replay σ) Unit
  | [] => return
  | s :: ss => do
    if gaveUp (.step (itemPlace list i)) then throw .cancelled
    Step.replay gaveUp file (itemPlace list i) s
    Step.replayAll gaveUp file list (i + 1) ss

/-- Replays the arms of a branch in order, numbered from `i`.  The first arm is
open already. -/
def Step.replayArms (gaveUp : Juncture → Bool) (file place : String) (i : Nat) :
    List (List Step) → Action (Replay σ) Unit
  | [] => return
  | arm :: rest => do
    if i != 0 then located place (request CompilationUnit.nextArm)
    Step.replayAll gaveUp file (armPlace place i) 0 arm
    Step.replayArms gaveUp file place (i + 1) rest

end

end

/-! ## Checking -/

/-- The capability that a declared type asks for. -/
def TypeEntry.capabilityKind (t : TypeEntry) : Except Fault (Option CapabilityKind) :=
  if t.capability == "" then .ok none
  else
    let read := if t.capability.startsWith "#[" then CapabilityKind.ofAttribute t.capability
      else CapabilityKind.ofName t.capability
    (read.map some).mapError fun e => .within ("type " ++ t.name) (.badCapability e)

/-- The types that a trace declares. -/
def Trace.registry (t : Trace) : Except Fault Registry :=
  t.types.foldlM (fun r e => do
    let capability ← e.capabilityKind
    r.register { name := e.name, traits := e.traits, capability }) .empty

/-- What checking a trace leaves behind. -/
structure Checked (σ : Type) where
  /-- The report, unless the check failed. -/
  report : Option Report
  /-- The fault, if there was one. -/
  fault : Option Fault
  /-- The unit, once its types were registered. -/
  unit : Option (CompilationUnit σ)

/-- Checks a trace: registers its types, replays it and finishes the unit.  When
the replay fails the unit is finished all the same, but there is no report. -/
def Trace.check {σ : Type} [Solver σ] (t : Trace) (config : CheckerConfig) (run : String)
    (opening : Bool → Except Fault σ) (gaveUp : Juncture → Bool) : Checked σ :=
  match t.registry with
  | .error f => { report := none, fault := some f, unit := none }
  | .ok registry =>
    let fresh : Replay σ := { unit := .fresh t.unit registry config run opening }
    let (r, replay) := (Step.replayAll gaveUp t.unit "steps" 0 t.steps).perform fresh
    let ((report, late), unit) :=
      (CompilationUnit.finish fun n i => gaveUp (.closing n i)).run replay.unit
    match r with
    | .error f => { report := none, fault := some f, unit := some unit }
    | .ok () => { report, fault := late, unit := some unit }

end ResourceSafety
