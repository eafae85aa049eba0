import ResourceSafety.Trace.Entry

/-!
# Traces

A trace is what a semantic checker reports about one compilation unit: the types
it declares, and its declarations, accesses, scopes, thread regions, branches
and obligations in program order.

A trace has a unit name and at least one step.  Each step does exactly one thing.
A declaration has a type, and an access, a scope, a branch and an obligation say
where they are.  Only functions, blocks and thread regions have inner steps.  A
range is about a literal or about a handle.

Sites stay texts here.  They are read when the step is replayed.
-/

namespace ResourceSafety

/-- What a range obligation is about. -/
inductive RangeSubject
  | literal (value : UInt64)
  | handle (name : String)
deriving Repr, DecidableEq

/-- What a step without inner steps does. -/
inductive Act
  | declare (name type : String)
  | access (kind : Ownership.Access) (name : String)
  | release (name : String)
  | use (name : String)
  | consume (name : String)
  | share (name : String)
  | sync
  | fresh (handle : String)
  | assertShape (handle : String) (dims : List UInt64)
  | proveRange (subject : RangeSubject) (lo hi : UInt64)
  | proveShape (handle : String) (dims : List UInt64)
deriving Repr, DecidableEq

/-- A step of a trace. -/
inductive Step
  | act (what : Act) (site : String)
  /-- A function with its inner steps; it ends at `stop`, or where it begins. -/
  | function (name site stop : String) (body : List Step)
  /-- A block with its inner steps; it ends at `stop`, or where it begins. -/
  | block (site stop : String) (body : List Step)
  /-- A region of a thread with its inner steps. -/
  | thread (tag site : String) (body : List Step)
  /-- A branch with the inner steps of each arm. -/
  | branch (site : String) (arms : List (List Step))
deriving Repr

/-- A trace of one unit. -/
structure Trace where
  /-- The name of the unit; sites are in this file. -/
  unit : String
  /-- The program text, for reports. -/
  source : String
  /-- The types the unit declares. -/
  types : List TypeEntry
  /-- The steps in program order. -/
  steps : List Step

/-! ## What can be wrong with a trace -/

/-- What can be wrong with a step. -/
inductive StepError
  | noOperation
  | manyOperations
  | noType
  | noSite (operation : String)
  | unexpectedBody (operation : String)
  | rangeSubject
deriving Repr, DecidableEq

/-- The wording of an error. -/
def StepError.message : StepError → String
  | noOperation => "no operation"
  | manyOperations => "more than one operation"
  | noType => "declare needs a type"
  | noSite operation => operation ++ " needs a span (at)"
  | unexpectedBody operation => operation ++ " takes no body"
  | rangeSubject => "prove_range needs exactly one of value or handle"

/-- What can be wrong with a trace. -/
inductive TraceError
  /-- The text holds no document. -/
  | absent
  /-- The text is no YAML, or its values do not fit the fields. -/
  | unreadable (cause : Yaml.LoadError)
  | noUnit
  | noSteps
  | unnamedType (index : Nat)
  | step (place : String) (cause : StepError)
deriving Repr, DecidableEq

/-- The wording of an error. -/
def TraceError.message : TraceError → String
  | absent => "failed to parse YAML: EOF"
  | unreadable cause => "failed to parse YAML: " ++ cause.message
  | noUnit => "invalid trace: unit is required"
  | noSteps => "invalid trace: steps list is required and must be non-empty"
  | unnamedType i => s!"invalid trace: types[{i}]: name is required"
  | step place cause => "invalid trace: " ++ place ++ ": " ++ cause.message

/-! ## Places -/

/-- The place of an item of a list. -/
def itemPlace (list : String) (i : Nat) : String := s!"{list}[{i}]"

/-- The place of the inner steps of a step. -/
def bodyPlace (step : String) : String := step ++ ".body"

/-- The place of the steps of an arm of a branch. -/
def armPlace (step : String) (i : Nat) : String := itemPlace (step ++ ".branch") i

/-! ## From entries to steps -/

/-- An operation that need not say where it is. -/
def Operation.mayFloat {α : Type} : Operation α → Bool
  | declare _ | sync | fresh _ | assertShape _ | thread _ => true
  | _ => false

/-- An operation with inner steps of its own. -/
def Operation.hasBody {α : Type} : Operation α → Bool
  | function _ | block | thread _ => true
  | _ => false

/-- A range that is about a literal or about a handle, but not about both. -/
def RangeEntry.subject? (r : RangeEntry) : Option RangeSubject :=
  match r.value, r.handle == "" with
  | some v, true => some (.literal v)
  | none, false => some (.handle r.handle)
  | _, _ => none

/-- What is wrong with an operation and the fields beside it. -/
def Operation.error? {α : Type} (op : Operation α) (type site : String) (bare : Bool) :
    Option StepError :=
  match op with
  | .declare _ => if type == "" then some .noType else bodyError
  | op => if !op.mayFloat && site == "" then some (.noSite op.name) else bodyError
where
  /-- What is wrong with the inner steps or with a range. -/
  bodyError : Option StepError :=
    if !bare && !op.hasBody then some (.unexpectedBody op.name)
    else match op with
      | .proveRange r => if r.subject?.isNone then some .rangeSubject else none
      | _ => none

mutual

/-- The step that an entry means. -/
def Entry.step (place : String) : Entry → Except TraceError Step
  | ⟨[], _, _, _, _⟩ => .error (.step place .noOperation)
  | ⟨[op], type, site, stop, body⟩ => do
    match op.error? type site body.isEmpty with
    | some e => .error (.step place e)
    | none => pure ()
    let inner ← Entry.steps (bodyPlace place) 0 body
    Entry.operationStep place type site stop inner op
  | ⟨_ :: _ :: _, _, _, _, _⟩ => .error (.step place .manyOperations)

/-- The step that an operation means, with the fields beside it. -/
def Entry.operationStep (place type site stop : String) (body : List Step) :
    Operation Entry → Except TraceError Step
  | .declare name => .ok (.act (.declare name type) site)
  | .access kind name => .ok (.act (.access kind name) site)
  | .release name => .ok (.act (.release name) site)
  | .use name => .ok (.act (.use name) site)
  | .consume name => .ok (.act (.consume name) site)
  | .share name => .ok (.act (.share name) site)
  | .function name => .ok (.function name site stop body)
  | .block => .ok (.block site stop body)
  | .thread tag => .ok (.thread tag site body)
  | .sync => .ok (.act .sync site)
  | .branch arms => return .branch site (← Entry.arms place 0 arms)
  | .fresh handle => .ok (.act (.fresh handle) site)
  | .assertShape s => .ok (.act (.assertShape s.handle s.dims) site)
  | .proveRange r =>
    match r.subject? with
    | some subject => .ok (.act (.proveRange subject r.lo r.hi) site)
    | none => .error (.step place .rangeSubject)
  | .proveShape s => .ok (.act (.proveShape s.handle s.dims) site)

/-- The steps that entries mean, numbered from `i`. -/
def Entry.steps (list : String) (i : Nat) : List Entry → Except TraceError (List Step)
  | [] => .ok []
  | e :: es => do
    let first ← Entry.step (itemPlace list i) e
    let rest ← Entry.steps list (i + 1) es
    return first :: rest

/-- The arms that lists of entries mean, numbered from `i`. -/
def Entry.arms (place : String) (i : Nat) : List (List Entry) → Except TraceError (List (List Step))
  | [] => .ok []
  | es :: rest => do
    let first ← Entry.steps (armPlace place i) 0 es
    let others ← Entry.arms place (i + 1) rest
    return first :: others

end

/-! ## Reading traces -/

/-- The trace that a draft means. -/
def Draft.trace (d : Draft) : Except TraceError Trace := do
  if d.unit == "" then throw .noUnit
  if d.steps.isEmpty then throw .noSteps
  match d.types.findIdx? (·.name == "") with
  | some i => throw (.unnamedType i)
  | none => pure ()
  return { unit := d.unit, source := d.source, types := d.types
           steps := ← Entry.steps "steps" 0 d.steps }

namespace Trace

/-- The trace of a document.  `name` stands in for the unit when it has no name. -/
def ofDocument (name : String) (d : Yaml.Document) : Except TraceError Trace :=
  match d.load Draft.ofNode with
  | .error e => .error (.unreadable e)
  | .ok none => .error .absent
  | .ok (some draft) => (if draft.unit == "" then { draft with unit := name } else draft).trace

/-- The trace that a text holds. -/
def ofString (text : String) : Except TraceError Trace := ofDocument "" (.ofString text)

end Trace

end ResourceSafety
