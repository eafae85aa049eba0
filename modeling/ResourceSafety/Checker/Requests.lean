import ResourceSafety.Checker.State

/-!
# Declarations, accesses and obligations

The requests that do not open or close anything.

A declaration is made known to the ownership tracker of its body and, when its
type holds a capability, to the capability context.  An ownership access that
broke no rule is remarked in the history of the capability.  A capability
access to a name without a capability is accepted silently.
-/

namespace ResourceSafety.CompilationUnit

open Logic (Action Formula Solver Term)

variable {σ : Type}

/-! ## Declarations -/

/-- Declares a name in the innermost scope. -/
def declare (name : String) (type : Option Ty) (site : Span) :
    Action (CompilationUnit σ) Declared := do
  requireLive
  let u ← get
  if u.current.innerNames.any (·.name == name) then throw (.duplicateBinding name)
  let d : Declared :=
    { name, type, definedAt := site, mode := (type.map u.registry.mode).getD {} }
  let tracker ← MonadExcept.ofExcept (u.current.tracker.define name site)
  modify (·.changeCurrent ({ · with tracker }))
  match d.mode.capability with
  | some kind => onCapabilities (·.define name kind site)
  | none => pure ()
  modify (·.changeCurrent (·.addName d))
  return d

/-! ## Ownership -/

/-- The record that an ownership access leaves with a capability. -/
def remarkOf : Ownership.Access → Option Capability.AccessKind
  | .read => none
  | .move => some .move
  | .borrow _ => some .borrow

/-- Remarks an ownership access in the history of a capability. -/
def remark (d : Declared) (a : Ownership.Access) (site : Span) :
    Action (CompilationUnit σ) Unit := do
  match remarkOf a with
  | some kind => if d.mode.hasCapability then onCapabilities (·.remark d.name kind site)
  | none => pure ()

/-- An ownership access. -/
def access (a : Ownership.Access) (name : String) (site : Span) :
    Action (CompilationUnit σ) (Option Violation) := do
  requireLive
  let (body, d) ← MonadExcept.ofExcept ((← get).locate name)
  let (v, tracker) ← MonadExcept.ofExcept (body.tracker.access a name site)
  modify (·.changeBody body.id ({ · with tracker }))
  match v with
  | some v => modify (·.collect v)
  | none => remark d a site
  return v

/-- The latest borrow of a name ends. -/
def release (name : String) (site : Span) : Action (CompilationUnit σ) Unit := do
  requireLive
  let (body, _) ← MonadExcept.ofExcept ((← get).locate name)
  let tracker ← MonadExcept.ofExcept (body.tracker.release name site)
  modify (·.changeBody body.id ({ · with tracker }))

/-! ## Capabilities -/

/-- A capability access. -/
def capabilityAccess
    (op : Capability.Context → String → Span →
      Except Fault (Option Violation × Capability.Context))
    (name : String) (site : Span) : Action (CompilationUnit σ) (Option Violation) := do
  requireLive
  let (_, d) ← MonadExcept.ofExcept ((← get).locate name)
  if !d.mode.hasCapability then return none
  let (v, c) ← MonadExcept.ofExcept (op (← get).capabilities name site)
  modify fun u => { u with capabilities := c }
  match v with
  | some v => modify (·.collect v)
  | none => pure ()
  return v

/-- A live access of a capability. -/
def use (name : String) (site : Span) : Action (CompilationUnit σ) (Option Violation) :=
  capabilityAccess Capability.Context.use name site

/-- The last access of a capability. -/
def consume (name : String) (site : Span) : Action (CompilationUnit σ) (Option Violation) :=
  capabilityAccess Capability.Context.consume name site

/-- A capability is shared between threads from now on. -/
def share (name : String) (site : Span) : Action (CompilationUnit σ) (Option Violation) :=
  capabilityAccess Capability.Context.share name site

/-- The following accesses run in a thread region. -/
def enterThread (tag : ThreadTag) : Action (CompilationUnit σ) Unit := do
  requireLive
  modify fun u => { u with capabilities := u.capabilities.enterThread tag }

/-- The innermost thread region ends. -/
def exitThread : Action (CompilationUnit σ) Unit := do
  requireLive
  onCapabilities (·.exitThread)

/-- A synchronization point. -/
def sync (site : Span) : Action (CompilationUnit σ) Unit := do
  requireLive
  modify fun u => { u with capabilities := u.capabilities.sync site }

/-! ## Obligations -/

variable [Solver σ]

/-- Queues an obligation until the enclosing function ends. -/
def require (o : Obligation) : Action (CompilationUnit σ) Unit := do
  requireLive
  onDischarger (Discharger.enqueue o)

/-- Makes a symbolic value, and gives its symbol. -/
def freshHandle (cancelled : Bool) (text : String) : Action (CompilationUnit σ) String := do
  requireLive
  onDischarger (Discharger.freshSymbol cancelled text)

/-- A handle is a tensor with the given dimensions. -/
def assertShape (cancelled : Bool) (symbol : String) (dims : List UInt64) :
    Action (CompilationUnit σ) Unit := do
  requireLive
  onDischarger (Discharger.assertShape cancelled symbol dims)

/-- A fact about handles holds from now on. -/
def assume (cancelled : Bool) (fact : Formula Term) : Action (CompilationUnit σ) Unit := do
  requireLive
  onDischarger (Discharger.pushConstraint cancelled fact)

end ResourceSafety.CompilationUnit
