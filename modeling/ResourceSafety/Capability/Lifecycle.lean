import ResourceSafety.Violation

/-!
# The life of a capability

A capability is fresh, then in use, then consumed.  It may be shared between
threads, and never stops being so.

Where the arms of a branch meet, two questions are kept apart.  A capability
counts as consumed when every arm consumed it, since one arm that did not would
leak it.  A later access is reported when any arm consumed it.  So a capability
consumed on some arms is in use again and remembers the consuming site.
-/

namespace ResourceSafety.Capability

/-- How far a capability has come. -/
inductive State
  | fresh
  | inUse
  | consumed
deriving Repr, DecidableEq

namespace State

/-- The states in order. -/
def all : List State := [fresh, inUse, consumed]

/-- The name of a state. -/
def name : State → String
  | fresh => "fresh"
  | inUse => "in-use"
  | consumed => "consumed"

end State

/-- The part of a capability that changes with control flow. -/
structure Lifecycle where
  /-- How far it has come. -/
  state : State := .fresh
  /-- It is shared between threads. -/
  shared : Bool := false
  /-- The consuming site; zero while not consumed. -/
  consumedAt : Span := .zero
  /-- A consuming site on some of the ways that led here; zero when there is
  none. -/
  mayConsumedAt : Span := .zero
deriving Repr, DecidableEq

namespace Lifecycle

/-- The remark on a capability that may be consumed. -/
def doubt : String := "may have been consumed on another path"

/-- The violation of an access to a capability that is, or may be, consumed. -/
def refusal? (l : Lifecycle) (name : String) (site : Span) (reason : String) : Option Violation :=
  if l.state = .consumed then
    some { Violation.against .useAfterConsumption name site l.consumedAt with reason }
  else if !l.mayConsumedAt.isZero then
    some { Violation.against .useAfterConsumption name site l.mayConsumedAt with reason := doubt }
  else none

/-- The lifecycle after a consuming access. -/
def consume (l : Lifecycle) (site : Span) : Lifecycle :=
  { l with state := .consumed, consumedAt := site, mayConsumedAt := .zero }

/-- A lifecycle rewound to an earlier one.  What is shared stays shared. -/
def rewind (now earlier : Lifecycle) : Lifecycle :=
  { earlier with shared := now.shared || earlier.shared }

/-- The first span that is not zero. -/
def firstSite (sites : List Span) : Span := (sites.find? (!·.isZero)).getD .zero

/-- The lifecycle where arms that end in `first` and `rest` meet. -/
def merge (first : Lifecycle) (rest : List Lifecycle) : Lifecycle :=
  let arms := first :: rest
  let shared := arms.any (·.shared)
  let consumedAt := firstSite (arms.map (·.consumedAt))
  let mayConsumedAt := firstSite (arms.map (·.mayConsumedAt))
  if arms.all (·.state == .consumed) then
    { state := .consumed, shared, consumedAt, mayConsumedAt := .zero }
  else if arms.any (·.state != .fresh) then
    { state := .inUse, shared, consumedAt := .zero
      mayConsumedAt := if mayConsumedAt.isZero then consumedAt else mayConsumedAt }
  else { state := .fresh, shared, consumedAt, mayConsumedAt }

end Lifecycle

end ResourceSafety.Capability
