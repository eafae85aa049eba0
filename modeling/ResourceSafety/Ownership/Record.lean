import ResourceSafety.Violation

/-!
# Ownership records

The record of a binding says whether its value is still there and who borrows
it.  A value is read, moved, or borrowed, shared or mutably.

* A moved value can no longer be read, moved or borrowed.
* A borrowed value can be read but not moved.
* Shared borrows stack.  A mutable borrow excludes every other borrow.

`refusal?` gives the violation of an access that breaks a rule.  Such an access
changes nothing.  `after` is the record after an access that breaks none.

Where the arms of a branch meet, records are *joined*.  A value moved on some
arms only has an unknown state, which is as unusable as a moved one.  On arms
that agree about the move, the outstanding borrows of all arms stay.
-/

namespace ResourceSafety.Ownership

/-- What a binding's value is available for. -/
inductive State
  | owned
  | borrowed
  | borrowedMutably
  | moved
  /-- Moved on some of the arms that led here. -/
  | unknown
deriving Repr, DecidableEq

namespace State

/-- The states in order. -/
def all : List State := [owned, borrowed, borrowedMutably, moved, unknown]

/-- The name of a state. -/
def name : State → String
  | owned => "owned"
  | borrowed => "borrowed"
  | borrowedMutably => "borrowed mutably"
  | moved => "moved"
  | unknown => "unknown"

/-- The value may be read. -/
def isUsable : State → Bool
  | moved | unknown => false
  | _ => true

end State

/-- The state, the move site and the outstanding borrows of a binding. -/
structure Record where
  /-- The state. -/
  state : State := .owned
  /-- Where the value was moved; zero while it was not. -/
  movedAt : Span := .zero
  /-- The outstanding shared borrows, oldest first. -/
  shared : List Span := []
  /-- A mutable borrow is outstanding. -/
  hasMutable : Bool := false
  /-- Where the outstanding mutable borrow was taken; zero while there is none. -/
  mutableAt : Span := .zero
deriving Repr, DecidableEq

/-- An access to a value. -/
inductive Access
  | read
  | move
  | borrow (mutable : Bool)
deriving Repr, DecidableEq

namespace Record

/-- The outstanding mutable borrow. -/
def mutable (r : Record) : Option Span := if r.hasMutable then some r.mutableAt else none

/-- The state that the outstanding borrows call for. -/
def borrowState (r : Record) : State :=
  if r.mutable.isSome then .borrowedMutably else if r.shared.isEmpty then .owned else .borrowed

/-- The record with its state set from its borrows.  A value that is gone, or
may be, stays so. -/
def settle (r : Record) : Record :=
  if r.state.isUsable then { r with state := r.borrowState } else r

/-- The borrow that a move runs into. -/
def latestBorrow (r : Record) : Span :=
  match r.mutable with
  | some s => s
  | none => r.shared.getLast?.getD .zero

/-- The remark on a value that may be gone. -/
def doubt (r : Record) : String :=
  if r.state = .unknown then "may have been moved on another path" else ""

/-- The violation of an access that the record forbids. -/
def refusal? (r : Record) (name : String) (site : Span) : Access → Option Violation
  | .read =>
    if r.state.isUsable then none
    else some { Violation.against .useAfterMove name site r.movedAt with reason := r.doubt }
  | .move =>
    match r.state with
    | .owned => none
    | .borrowed | .borrowedMutably => some
        { Violation.against .borrowAfterMove name site r.latestBorrow with
          reason := "moved while borrowed" }
    | .moved | .unknown =>
      some { Violation.against .doubleMove name site r.movedAt with reason := r.doubt }
  | .borrow exclusive =>
    if !r.state.isUsable then
      some { Violation.against .borrowAfterMove name site r.movedAt with reason := r.doubt }
    else match r.mutable, r.shared with
      | some s, _ => some
          { Violation.against .borrowExclusivity name site s with
            reason := "already borrowed mutably" }
      | none, s :: _ =>
        if exclusive then some
          { Violation.against .borrowExclusivity name site s with reason := "already borrowed" }
        else none
      | none, [] => none

/-- The record after an access. -/
def after (r : Record) (site : Span) : Access → Record
  | .read => r
  | .move => { r with state := .moved, movedAt := site }
  | .borrow true => settle { r with hasMutable := true, mutableAt := site }
  | .borrow false => settle { r with shared := r.shared ++ [site] }

/-- The record after the latest borrow ends, the mutable one first. -/
def release? (r : Record) : Option Record :=
  if r.mutable.isSome then some (settle { r with hasMutable := false, mutableAt := .zero })
  else if r.shared.isEmpty then none
  else some (settle { r with shared := r.shared.dropLast })

/-- Two arms end alike: same state, same numbers of borrows, and for moved
values the same move site. -/
def agrees (r other : Record) : Bool :=
  r.state == other.state && r.mutable.isSome == other.mutable.isSome &&
    r.shared.length == other.shared.length &&
    (r.state != .moved || r.movedAt == other.movedAt)

/-- The spans of `more` that are not yet in `spans`, put behind them. -/
def addSpans (spans more : List Span) : List Span :=
  more.foldl (fun acc s => if acc.contains s then acc else acc ++ [s]) spans

/-- The record with the end of another arm folded in. -/
def join (r other : Record) : Record :=
  let r := if r.movedAt.isZero then { r with movedAt := other.movedAt } else r
  if r.state = .unknown || other.state = .unknown || (r.state == .moved) != (other.state == .moved)
  then { r with state := .unknown, shared := [], hasMutable := false, mutableAt := .zero }
  else if r.state = .moved then r
  else
    settle { r with
      shared := addSpans r.shared other.shared
      hasMutable := r.hasMutable || other.hasMutable
      mutableAt := if other.hasMutable && !r.hasMutable then other.mutableAt else r.mutableAt }

end Record

end ResourceSafety.Ownership
