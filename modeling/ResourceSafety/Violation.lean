import ResourceSafety.Source.Span
import ResourceSafety.Text.Quoted

/-!
# Violations

A violation is a finding about the checked program.  It is an answer, not a
failure: the trackers return it and go on.

Nine kinds of finding are known.  The first seven come from the ownership and
capability trackers, the last two from the discharge of proof obligations.
Each kind has a number, which orders findings at one place.

The *key* of a violation joins everything that tells two findings apart.  A
finding reached on two ways, by an eager check and by a sweep, has one key.
-/

namespace ResourceSafety

/-- The kind of a finding. -/
inductive ViolationKind
  /-- A value is read after it was moved. -/
  | useAfterMove
  /-- A value is moved a second time. -/
  | doubleMove
  /-- A value is borrowed after a move, or moved while borrowed. -/
  | borrowAfterMove
  /-- Two borrows that exclude each other. -/
  | borrowExclusivity
  /-- A capability is used after it was consumed. -/
  | useAfterConsumption
  /-- A capability goes out of scope without being consumed. -/
  | resourceLeak
  /-- Two threads reach a capability with no synchronization between them. -/
  | concurrentUse
  /-- A proof obligation fails. -/
  | proofRefuted
  /-- A proof obligation could not be decided. -/
  | solverTimeout
  /-- A number that names no kind. -/
  | other (number : Int64) (unnamed : number < 1 ∨ 9 < number)
deriving Repr, DecidableEq

namespace ViolationKind

/-- The nine kinds in the order of their numbers. -/
def all : List ViolationKind :=
  [useAfterMove, doubleMove, borrowAfterMove, borrowExclusivity, useAfterConsumption,
   resourceLeak, concurrentUse, proofRefuted, solverTimeout]

/-- The number of a kind. -/
def number : ViolationKind → Int64
  | useAfterMove => 1
  | doubleMove => 2
  | borrowAfterMove => 3
  | borrowExclusivity => 4
  | useAfterConsumption => 5
  | resourceLeak => 6
  | concurrentUse => 7
  | proofRefuted => 8
  | solverTimeout => 9
  | other n _ => n

/-- The kind with a number. -/
def ofNumber (n : Int64) : ViolationKind :=
  if h : n < 1 ∨ 9 < n then other n h
  else (all.find? (·.number == n)).getD solverTimeout

/-- The name of a kind. -/
def name : ViolationKind → String
  | useAfterMove => "UseAfterMove"
  | doubleMove => "DoubleMove"
  | borrowAfterMove => "BorrowAfterMove"
  | borrowExclusivity => "BorrowExclusivity"
  | useAfterConsumption => "UseAfterConsumption"
  | resourceLeak => "ResourceLeak"
  | concurrentUse => "ConcurrentUseWithoutSync"
  | proofRefuted => "ProofRefuted"
  | solverTimeout => "SolverTimeout"
  | other n _ => s!"Kind({n})"

/-- The known kind with a name. -/
def ofName? (text : String) : Option ViolationKind := all.find? (·.name == text)

/-- The kind comes from the ownership or the capability tracker. -/
def isLifecycle (k : ViolationKind) : Bool := 1 ≤ k.number && k.number ≤ 7

/-- The kind comes from the discharge of obligations. -/
def isProof (k : ViolationKind) : Bool := k == proofRefuted || k == solverTimeout

end ViolationKind

/-- The name of a concurrency region of the checked program. -/
abbrev ThreadTag := String

/-- The region of code outside every thread. -/
def mainThread : ThreadTag := "main"

/-- A finding. -/
structure Violation where
  /-- What was found. -/
  kind : ViolationKind
  /-- The binding it is about; empty for an obligation on a literal. -/
  binding : String
  /-- Where it was found. -/
  span : Span
  /-- The earlier event it conflicts with. -/
  conflict : Option Span := none
  /-- For unsynchronized use: the thread of the earlier access, then of the
  later one. -/
  threads : ThreadTag × ThreadTag := ("", "")
  /-- A remark on how it came about. -/
  reason : String := ""
  /-- The obligation, for the two proof kinds. -/
  obligation : String := ""
  /-- The counterexample as solver text. -/
  model : String := ""
  /-- The counterexample as values of names. -/
  assignments : List (String × String) := []
deriving Repr, DecidableEq

namespace Violation

/-- A finding with the span of an earlier event.  An invalid span is dropped. -/
def against (kind : ViolationKind) (binding : String) (span earlier : Span) : Violation :=
  { kind, binding, span, conflict := if earlier.isValid then some earlier else none }

/-- The one-line text of a finding. -/
def render (v : Violation) : String :=
  v.span.render ++ ": " ++ v.kind.name ++
    (if v.binding != "" then " of " ++ Text.quote v.binding else "") ++
    (if v.reason != "" then " (" ++ v.reason ++ ")" else "") ++
    (match v.conflict with
      | some c => ", see " ++ c.render
      | none => "")

/-- The text that identifies a finding. -/
def key (v : Violation) : String :=
  "|".intercalate
    [toString v.kind.number, v.binding, v.span.render, (v.conflict.map Span.render).getD "",
     v.threads.1, v.threads.2, v.obligation]

/-- The values of the counterexample, ordered by name. -/
def sortedAssignments (v : Violation) : List String :=
  (v.assignments.mergeSort fun a b => a.1 ≤ b.1).map fun (name, value) => name ++ " = " ++ value

/-- The report order: by start position, then by the number of the kind. -/
def comesBefore (v w : Violation) : Bool :=
  match v.span.start.compare w.span.start with
  | .lt => true
  | .gt => false
  | .eq => v.kind.number < w.kind.number

/-- Findings in report order.  Those equal in it keep their places. -/
def sort (vs : List Violation) : List Violation := vs.mergeSort fun v w => !w.comesBefore v

end Violation

end ResourceSafety
