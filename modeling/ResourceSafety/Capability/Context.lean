import ResourceSafety.Capability.Lifecycle
import ResourceSafety.Capability.Race
import ResourceSafety.Fault

/-!
# The capability context

The context follows the capabilities of a whole unit: the open *frames*, one
for each lexical block, the open thread regions, the open branches, and every
capability ever defined with its history.

* A frame that closes reports a leak for each of its capabilities that is not
  consumed.
* Each access is recorded with the current thread and the arms around it.
* A synchronization point leaves a marker in the history of every capability
  of an open frame.  A branch whose every arm synchronized is itself a
  synchronization point where it ends.

Races are looked for when a frame closes and in the final sweep.  A *strict*
context looks at every access instead of waiting for the frame.

A snapshot holds the lifecycles of the capabilities of the open frames.  The
histories are not part of it: they only grow.
-/

namespace ResourceSafety.Capability

/-- A capability of the unit. -/
structure Binding where
  /-- Its number, the place in the table of the unit. -/
  id : Nat
  /-- The name. -/
  name : String
  /-- The family of resources. -/
  kind : CapabilityKind
  /-- Where it is defined. -/
  definedAt : Span
  /-- The number of the frame it is defined in. -/
  frame : Nat
  /-- Its present lifecycle. -/
  life : Lifecycle := {}
  /-- Its records, oldest first. -/
  history : List AccessRecord := []
deriving Repr, DecidableEq

/-- A branch whose arms are still being walked. -/
structure OpenBranch where
  /-- The present arm. -/
  here : ArmRef
  /-- The number of finished arms that synchronized on every way through. -/
  synced : Nat := 0
  /-- The present arm has synchronized. -/
  current : Bool := false
deriving Repr, DecidableEq

/-- The capability state of a unit. -/
structure Context where
  /-- Races are looked for at every access. -/
  strict : Bool
  /-- The numbers of the open frames, innermost first. -/
  frames : List Nat := [0]
  /-- The number of the next frame. -/
  nextFrame : Nat := 1
  /-- The innermost thread region. -/
  thread : ThreadTag := mainThread
  /-- The regions around it, innermost first. -/
  outerThreads : List ThreadTag := []
  /-- Every capability of the unit, in the order of definition. -/
  table : List Binding := []
  /-- The number of records made so far. -/
  seq : Nat := 0
  /-- The open branches, innermost first. -/
  branches : List OpenBranch := []
  /-- The number of branches opened so far. -/
  branchCount : Nat := 0
deriving Repr, DecidableEq

/-- The lifecycles of capabilities at one point. -/
abbrev Snapshot := List (Nat × Lifecycle)

namespace Context

/-- The context of an empty unit, with the outermost frame open. -/
def empty (strict : Bool) : Context := { strict }

/-- The number of open frames. -/
def depth (c : Context) : Nat := c.frames.length

/-- The capabilities of a frame, in the order of definition. -/
def inFrame (c : Context) (frame : Nat) : List Binding := c.table.filter (·.frame == frame)

/-- The capability that a name means. -/
def find? (c : Context) (name : String) : Option Binding :=
  c.frames.findSome? fun f => (c.inFrame f).find? (·.name == name)

/-- The capability that a name means, or a fault. -/
def lookup (c : Context) (name : String) : Except Fault Binding :=
  match c.find? name with
  | some b => .ok b
  | none => .error (.unknownBinding name)

/-- The context with every capability changed. -/
def mapBindings (c : Context) (f : Binding → Binding) : Context :=
  { c with table := c.table.map f }

/-- The context with one capability replaced by another of the same number. -/
def put (c : Context) (b : Binding) : Context :=
  c.mapBindings fun old => if old.id = b.id then b else old

/-! ## Frames -/

/-- A new frame inside the innermost one. -/
def enter (c : Context) : Context :=
  { c with frames := c.nextFrame :: c.frames, nextFrame := c.nextFrame + 1 }

/-- The leak of a capability at the end of its frame.  Without a valid end the
place of the definition stands for it. -/
def leak (b : Binding) (site : Span) : Violation :=
  let primary := if site.isValid then site else b.definedAt
  { Violation.against .resourceLeak b.name primary b.definedAt with
    reason := b.kind.name ++ " is " ++ b.life.state.name ++ " at end of scope" }

/-- The races of a capability.  A shared one has none. -/
def racesOf (b : Binding) : List Violation := if b.life.shared then [] else races b.name b.history

/-- The innermost frame is closed.  Its leaks come first, then its races. -/
def exit (c : Context) (site : Span) : Except Fault (List Violation × Context) :=
  match c.frames with
  | [] => .error (.scopeUnderflow "capability")
  | f :: rest =>
    let closed := c.inFrame f
    let leaks := (closed.filter (·.life.state != .consumed)).map (leak · site)
    let found := if c.strict then [] else closed.flatMap racesOf
    .ok (leaks ++ found, { c with frames := rest })

/-- A new capability of the innermost frame, fresh. -/
def define (c : Context) (name : String) (kind : CapabilityKind) (site : Span) :
    Except Fault Context :=
  match c.frames with
  | [] => .error (.scopeUnderflow "capability")
  | f :: _ =>
    if (c.inFrame f).any (·.name == name) then .error (.duplicateBinding name)
    else
      let b : Binding := { id := c.table.length, name, kind, definedAt := site, frame := f }
      .ok { c with table := c.table ++ [b] }

/-! ## Threads and branches -/

/-- A new thread region inside the innermost one. -/
def enterThread (c : Context) (tag : ThreadTag) : Context :=
  { c with thread := tag, outerThreads := c.thread :: c.outerThreads }

/-- The innermost thread region is closed.  The main region never is. -/
def exitThread (c : Context) : Except Fault Context :=
  match c.outerThreads with
  | [] => .error (.scopeUnderflow "thread region")
  | t :: rest => .ok { c with thread := t, outerThreads := rest }

/-- The arms around the present point, outermost first. -/
def path (c : Context) : ArmPath := (c.branches.map (·.here)).reverse

/-- A record made now. -/
def recordNow (c : Context) (kind : AccessKind) (site : Span) : AccessRecord :=
  { seq := c.seq + 1, thread := c.thread, span := site, kind, path := c.path }

/-- The innermost open branch has synchronized on its present arm. -/
def markSynced : List OpenBranch → List OpenBranch
  | [] => []
  | b :: rest => { b with current := true } :: rest

/-- A synchronization point. -/
def sync (c : Context) (site : Span) : Context :=
  let marker := c.recordNow .sync site
  { c with
    seq := c.seq + 1
    table := c.table.map fun b =>
      if c.frames.contains b.frame then { b with history := b.history ++ [marker] } else b
    branches := markSynced c.branches }

/-- A new branch.  Its first arm begins at once. -/
def enterBranch (c : Context) : Context :=
  let number := c.branchCount + 1
  { c with branchCount := number, branches := { here := ⟨number, 0⟩ } :: c.branches }

/-- A branch with its present arm finished. -/
def OpenBranch.finishArm (b : OpenBranch) : OpenBranch :=
  { b with synced := if b.current then b.synced + 1 else b.synced, current := false }

/-- The next arm of the innermost branch begins. -/
def nextArm (c : Context) : Except Fault Context :=
  match c.branches with
  | [] => .error (.scopeUnderflow "branch")
  | b :: rest =>
    let b := OpenBranch.finishArm b
    .ok { c with branches := { b with here := ⟨b.here.branch, b.here.arm + 1⟩ } :: rest }

/-- The innermost branch ends.  When it has several arms and each of them
synchronized, its end is a synchronization point. -/
def exitBranch (c : Context) (site : Span) : Except Fault Context :=
  match c.branches with
  | [] => .error (.scopeUnderflow "branch")
  | b :: rest =>
    let b := OpenBranch.finishArm b
    let c := { c with branches := rest }
    .ok (if 0 < b.here.arm && b.synced == b.here.arm + 1 then c.sync site else c)

/-! ## Accesses -/

/-- The context with a record made now for a capability, which also changes its
lifecycle. -/
def note (c : Context) (b : Binding) (life : Lifecycle) (kind : AccessKind) (site : Span) :
    Context × Binding :=
  let b := { b with life, history := b.history ++ [c.recordNow kind site] }
  ({ c with seq := c.seq + 1 }.put b, b)

/-- The race that the latest access to a capability adds, for strict contexts. -/
def eager (c : Context) (b : Binding) : Option Violation :=
  if c.strict && !b.life.shared then latestRace? b.name b.history else none

/-- A live access. -/
def use (c : Context) (name : String) (site : Span) : Except Fault (Option Violation × Context) := do
  let b ← c.lookup name
  match b.life.refusal? name site "" with
  | some v => return (some v, c)
  | none =>
    let (c, b) := c.note b { b.life with state := .inUse } .use site
    return (c.eager b, c)

/-- The last access.  A capability that may be consumed is reported and is
consumed afterwards. -/
def consume (c : Context) (name : String) (site : Span) :
    Except Fault (Option Violation × Context) := do
  let b ← c.lookup name
  if b.life.state = .consumed then
    return (b.life.refusal? name site "consumed twice", c)
  else
    let maybe := b.life.refusal? name site ""
    let (c, b) := c.note b (b.life.consume site) .consume site
    return (maybe <|> c.eager b, c)

/-- The capability is shared between threads from now on. -/
def share (c : Context) (name : String) (site : Span) :
    Except Fault (Option Violation × Context) := do
  let b ← c.lookup name
  match b.life.refusal? name site "shared after consumption" with
  | some v => return (some v, c)
  | none => return (none, (c.note b { b.life with shared := true } .share site).1)

/-- A record of an access that does not change the lifecycle. -/
def remark (c : Context) (name : String) (kind : AccessKind) (site : Span) :
    Except Fault Context := do
  let b ← c.lookup name
  return (c.note b b.life kind site).1

/-- The races of every capability of the unit, closed frames included. -/
def validate (c : Context) : List Violation := c.table.flatMap racesOf

/-! ## Snapshots -/

/-- The lifecycles of all capabilities of the open frames. -/
def snapshot (c : Context) : Snapshot :=
  (c.table.filter fun b => c.frames.contains b.frame).map fun b => (b.id, b.life)

/-- The capabilities of a snapshot get their lifecycles back.  Others stay. -/
def restore (c : Context) (s : Snapshot) : Context :=
  c.mapBindings fun b =>
    match s.lookup b.id with
    | some l => { b with life := b.life.rewind l }
    | none => b

/-- The arms of a branch meet.  Capabilities unknown to the first arm stay as
they are, and an arm that does not know a capability has no say. -/
def merge (c : Context) : List Snapshot → Context
  | [] => c
  | first :: rest =>
    c.mapBindings fun b =>
      match first.lookup b.id with
      | none => b
      | some l => { b with life := b.life.rewind (l.merge (rest.filterMap (·.lookup b.id))) }

end Context

end ResourceSafety.Capability
