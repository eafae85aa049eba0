import ResourceSafety.Violation

/-!
# Races

Every access to a capability leaves a record: when it was made, by which
thread, and on which arms of which branches.  Synchronization points leave a
record too, a *marker*.

Two accesses of different threads *conflict* when some execution makes both and
passes no marker between them.

* Accesses on different arms of one branch exclude each other.
* A marker separates two accesses when each of its arms is taken by one of
  them, for then every execution that makes both passes it.

A finding names two conflicting accesses.  There is one finding for each pair
of threads in each *window*.  The window of an access is the latest marker
before it that lies on its path, so it begins anew at every synchronization
that the access is sure to have behind it.
-/

namespace ResourceSafety.Capability

/-- What a record is about. -/
inductive AccessKind
  | use
  | move
  | borrow
  | consume
  | share
  | sync
deriving Repr, DecidableEq

namespace AccessKind

/-- The kinds in order. -/
def all : List AccessKind := [use, move, borrow, consume, share, sync]

/-- The name of a kind. -/
def name : AccessKind → String
  | use => "use"
  | move => "move"
  | borrow => "borrow"
  | consume => "consume"
  | share => "share"
  | sync => "sync"

/-- Records of this kind take part in races. -/
def conflicts : AccessKind → Bool
  | use | consume => true
  | _ => false

end AccessKind

/-- One arm of one branch.  Branches have numbers of their own, and arms count
from zero. -/
structure ArmRef where
  /-- The branch. -/
  branch : Nat
  /-- The arm. -/
  arm : Nat
deriving Repr, DecidableEq

/-- The arms around a point, outermost first. -/
abbrev ArmPath := List ArmRef

/-- A record of a history. -/
structure AccessRecord where
  /-- The place in the order of evaluation. -/
  seq : Nat
  /-- The thread. -/
  thread : ThreadTag
  /-- The place in the source. -/
  span : Span
  /-- What was done. -/
  kind : AccessKind
  /-- The arms around it. -/
  path : ArmPath
deriving Repr, DecidableEq

/-- The paths take different arms of one branch. -/
def exclusive : ArmPath → ArmPath → Bool
  | a :: as, b :: bs =>
    if a.branch ≠ b.branch then false
    else if a.arm ≠ b.arm then true
    else exclusive as bs
  | _, _ => false

/-- Every arm of the path is taken by one of `paths`. -/
def onPath (p : ArmPath) (paths : List ArmPath) : Bool := p.all fun ref => paths.any (·.contains ref)

/-- An access that takes part in races, with its window. -/
structure WindowedAccess where
  /-- The access. -/
  record : AccessRecord
  /-- The place of the latest marker on its path, zero when there is none. -/
  window : Nat
deriving Repr, DecidableEq

/-- The markers of a history. -/
def markers (history : List AccessRecord) : List AccessRecord :=
  history.filter (·.kind == .sync)

/-- The window of an access after the records `before`. -/
def windowAfter (before : List AccessRecord) (r : AccessRecord) : Nat :=
  match ((markers before).filter fun m => onPath m.path [r.path]).getLast? with
  | some m => m.seq
  | none => 0

/-- The accesses of `history`, which comes after the records `before`. -/
def accessesAfter (before : List AccessRecord) : List AccessRecord → List WindowedAccess
  | [] => []
  | r :: rest =>
    let later := accessesAfter (before ++ [r]) rest
    if r.kind.conflicts then ⟨r, windowAfter before r⟩ :: later else later

/-- The accesses of a history that take part in races, in order. -/
def accesses (history : List AccessRecord) : List WindowedAccess := accessesAfter [] history

/-- A pair of threads in one window. -/
structure RaceKey where
  /-- The smaller tag. -/
  low : ThreadTag
  /-- The greater tag. -/
  high : ThreadTag
  /-- The window. -/
  window : Nat
deriving Repr, DecidableEq

/-- The key of two accesses, in the window of the later one. -/
def RaceKey.of (a b : WindowedAccess) : RaceKey :=
  let (s, t) := (a.record.thread, b.record.thread)
  if t < s then ⟨t, s, b.window⟩ else ⟨s, t, b.window⟩

/-- A marker that lies between two accesses on every execution of both. -/
def separates (a b m : AccessRecord) : Bool :=
  a.seq < m.seq && m.seq < b.seq && onPath m.path [a.path, b.path]

/-- The earlier access `a` and the later access `b` may run at once. -/
def conflict (syncs : List AccessRecord) (a b : WindowedAccess) : Bool :=
  a.record.thread != b.record.thread && !exclusive a.record.path b.record.path &&
    !syncs.any (separates a.record b.record)

/-- The pairs of an access with those before it. -/
def pairsWith (earlier : List WindowedAccess) (b : WindowedAccess) :
    List (WindowedAccess × WindowedAccess) :=
  earlier.map (·, b)

/-- All pairs of accesses, ordered by the later and then by the earlier one. -/
def pairsAfter (earlier : List WindowedAccess) :
    List WindowedAccess → List (WindowedAccess × WindowedAccess)
  | [] => []
  | b :: rest => pairsWith earlier b ++ pairsAfter (earlier ++ [b]) rest

/-- The pairs that conflict. -/
def conflicting (syncs : List AccessRecord) (pairs : List (WindowedAccess × WindowedAccess)) :
    List (WindowedAccess × WindowedAccess) :=
  pairs.filter fun (a, b) => conflict syncs a b

/-- The first pair of each key that is not among `seen`. -/
def firstOfKey (seen : List RaceKey) :
    List (WindowedAccess × WindowedAccess) → List (WindowedAccess × WindowedAccess)
  | [] => []
  | (a, b) :: rest =>
    let key := RaceKey.of a b
    if seen.contains key then firstOfKey seen rest else (a, b) :: firstOfKey (key :: seen) rest

/-- The finding about two accesses. -/
def raceViolation (name : String) (a b : WindowedAccess) : Violation :=
  { Violation.against .concurrentUse name b.record.span a.record.span with
    threads := (a.record.thread, b.record.thread)
    reason := "accessed from " ++ a.record.thread ++ " and " ++ b.record.thread ++
      " without synchronization" }

/-- The races of a history, one for each key. -/
def races (name : String) (history : List AccessRecord) : List Violation :=
  (firstOfKey [] (conflicting (markers history) (pairsAfter [] (accesses history)))).map
    fun (a, b) => raceViolation name a b

/-- The race that the last record of a history adds, if it adds one. -/
def latestRace? (name : String) (history : List AccessRecord) : Option Violation :=
  match history.getLast? with
  | none => none
  | some r =>
    if !r.kind.conflicts then none
    else
      let accs := accesses history
      let syncs := markers history
      let earlier := accs.dropLast
      let seen := (conflicting syncs (pairsAfter [] earlier)).map fun (a, b) => RaceKey.of a b
      match accs.getLast? with
      | none => none
      | some b =>
        ((conflicting syncs (pairsWith earlier b)).find? fun (a, b) =>
          !seen.contains (RaceKey.of a b)).map fun (a, b) => raceViolation name a b

end ResourceSafety.Capability
