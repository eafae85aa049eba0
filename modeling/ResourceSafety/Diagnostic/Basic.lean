import ResourceSafety.Violation

/-!
# Diagnostics

A diagnostic is the report of one violation to the user: a code, a title, a
sentence, the place, related places, and at most one suggestion.

`Diagnostic.of` maps a violation to its diagnostic.  Every kind has its own code
and its own wording.  An undecided obligation is a warning, or an error when
the caller wants it so.  It never counts as proved.
-/

namespace ResourceSafety

/-- How grave a diagnostic is. -/
inductive Severity
  | error
  | warning
  | note
  /-- A number that names no severity. -/
  | other (number : Int64)
deriving Repr, DecidableEq

namespace Severity

/-- The number of a severity.  Graver ones come first. -/
def number : Severity → Int64
  | error => 0
  | warning => 1
  | note => 2
  | other n => n

/-- The severity with a number. -/
def ofNumber (n : Int64) : Severity :=
  ([error, warning, note].find? (·.number == n)).getD (other n)

/-- The name of a severity. -/
def name : Severity → String
  | error => "error"
  | warning => "warning"
  | note => "note"
  | other _ => "unknown"

end Severity

/-- The part of the checker that found something. -/
inductive Category
  | ownership
  | capability
  | concurrency
  | proof
  /-- A number that names no part. -/
  | other (number : Int64)
deriving Repr, DecidableEq

namespace Category

/-- The number of a category. -/
def number : Category → Int64
  | ownership => 0
  | capability => 1
  | concurrency => 2
  | proof => 3
  | other n => n

/-- The category with a number. -/
def ofNumber (n : Int64) : Category :=
  ([ownership, capability, concurrency, proof].find? (·.number == n)).getD (other n)

/-- The name of a category. -/
def name : Category → String
  | ownership => "ownership"
  | capability => "capability"
  | concurrency => "concurrency"
  | proof => "proof"
  | other _ => "unknown"

end Category

/-- A second place that a diagnostic points at. -/
structure Related where
  /-- The place. -/
  span : Span
  /-- What happened there. -/
  message : String
deriving Repr, DecidableEq

/-- A report to the user. -/
structure Diagnostic where
  /-- The code. -/
  code : String := ""
  /-- The title. -/
  title : String := ""
  /-- The sentence. -/
  message : String := ""
  /-- What to do about it. -/
  suggestion : String := ""
  /-- The binding it is about. -/
  binding : String := ""
  /-- Further places. -/
  related : List Related := []
  /-- Labels. -/
  tags : List String := []
  /-- The place. -/
  span : Span := .zero
  /-- How grave it is. -/
  level : Severity := .error
  /-- Who found it. -/
  category : Category := .ownership
deriving Repr, DecidableEq

/-- The code of each kind of violation. -/
def ViolationKind.code : ViolationKind → String
  | .useAfterMove => "E5001"
  | .doubleMove => "E5002"
  | .borrowAfterMove => "E5003"
  | .borrowExclusivity => "E5004"
  | .useAfterConsumption => "E5101"
  | .resourceLeak => "E5102"
  | .concurrentUse => "E5103"
  | .proofRefuted => "E5201"
  | .solverTimeout => "W5202"
  | .other _ _ => ""

namespace Diagnostic

/-- A related place, left out when there is none or its span is invalid. -/
def relatedTo (span : Option Span) (message : String) : List Related :=
  match span with
  | some s => if s.isValid then [⟨s, message⟩] else []
  | none => []

/-- A name between backquotes. -/
def ticked (name : String) : String := "`" ++ name ++ "`"

/-- A sentence with a remark in brackets. -/
def withReason (message reason : String) : String :=
  if reason == "" then message else message ++ " (" ++ reason ++ ")"

/-- The counterexample of a refuted obligation in words. -/
def counterexample (v : Violation) : String :=
  match v.sortedAssignments with
  | [] => "a counterexample exists"
  | values => "counterexample " ++ ", ".intercalate values

/-- What all diagnostics of a violation share. -/
def base (v : Violation) : Diagnostic :=
  { code := v.kind.code, binding := v.binding, span := v.span, tags := [v.kind.name] }

/-- The diagnostic of a violation. -/
def of (unknownAsError : Bool) (v : Violation) : Diagnostic :=
  let it := ticked v.binding
  match v.kind with
  | .useAfterMove =>
    { base v with
      category := .ownership
      title := "Use of moved value"
      message := withReason (it ++ " is used after it was moved") v.reason
      related := relatedTo v.conflict "value moved here"
      suggestion := "borrow " ++ it ++ " instead of moving it, or move it only after its last use" }
  | .doubleMove =>
    { base v with
      category := .ownership
      title := "Value moved twice"
      message := withReason (it ++ " is moved again after it was already moved") v.reason
      related := relatedTo v.conflict "first moved here"
      suggestion := "remove one of the moves of " ++ it }
  | .borrowAfterMove =>
    if v.reason == "moved while borrowed" then
      { base v with
        category := .ownership
        title := "Move of borrowed value"
        message := it ++ " is moved while a borrow of it is still active"
        related := relatedTo v.conflict "borrowed here"
        suggestion := "release the borrow of " ++ it ++ " before moving it" }
    else
      { base v with
        category := .ownership
        title := "Borrow of moved value"
        message := withReason (it ++ " is borrowed after it was moved") v.reason
        related := relatedTo v.conflict "value moved here"
        suggestion := "borrow " ++ it ++ " before the move" }
  | .borrowExclusivity =>
    { base v with
      category := .ownership
      title := "Conflicting borrow"
      message := withReason
        (it ++ " cannot be borrowed here because a conflicting borrow is active") v.reason
      related := relatedTo v.conflict "conflicting borrow here"
      suggestion := "release the earlier borrow before borrowing again" }
  | .useAfterConsumption =>
    { base v with
      category := .capability
      title := "Use of consumed capability"
      message := withReason ("capability " ++ it ++ " is used after it was consumed") v.reason
      related := relatedTo v.conflict "consumed here"
      suggestion := "do not use " ++ it ++ " after the consuming call" }
  | .resourceLeak =>
    { base v with
      category := .capability
      title := "Capability never consumed"
      message := "capability " ++ it ++ " goes out of scope without being consumed"
      related := relatedTo v.conflict "defined here"
      suggestion := "consume or transfer " ++ it ++ " before the end of its scope" }
  | .concurrentUse =>
    { base v with
      category := .concurrency
      title := "Unsynchronized concurrent use"
      message := "capability " ++ it ++ " is accessed from threads " ++ v.threads.1 ++ " and " ++
        v.threads.2 ++ " without synchronization"
      related := relatedTo v.conflict ("accessed from thread " ++ v.threads.1 ++ " here")
      suggestion := "insert a synchronization point between the accesses, or share " ++ it ++
        " explicitly" }
  | .proofRefuted =>
    { base v with
      category := .proof
      title := "Obligation refuted"
      message := "cannot prove " ++ v.obligation ++ ": " ++ counterexample v
      related := if v.model == "" then [] else relatedTo (some v.span) ("counterexample:\n" ++ v.model)
      suggestion := "add a guard or assertion that establishes the condition" }
  | .solverTimeout =>
    { base v with
      category := .proof
      title := "Obligation undecided"
      message := withReason ("the solver could not decide " ++ v.obligation) v.reason
      suggestion := "simplify the condition or raise the solver timeout"
      level := if unknownAsError then .error else .warning }
  | .other _ _ => { base v with title := v.kind.name, message := v.render }

end Diagnostic

end ResourceSafety
