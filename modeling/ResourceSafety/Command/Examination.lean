import ResourceSafety.Diagnostic.Engine
import ResourceSafety.FileTree
import ResourceSafety.Json.Value
import ResourceSafety.Trace.Replay

/-!
# Examining traces

Each selected trace is a unit of its own.  Examining it reads the file, checks
the trace, and filters its diagnostics through the engine.  A unit is *accepted*
when none of the diagnostics that are left is an error, *rejected* otherwise,
and it *failed* when it could not be checked.

The examinations are written as text or as JSON.
-/

namespace ResourceSafety

/-- Why a unit could not be checked. -/
inductive UnitError
  /-- The file could not be read. -/
  | file (cause : FileTree.ReadError)
  /-- The file holds no trace. -/
  | trace (path : String) (cause : TraceError)
  /-- A request was refused. -/
  | fault (cause : Fault)
deriving Repr, DecidableEq

/-- The wording of an error. -/
def UnitError.message : UnitError → String
  | file cause => "failed to read trace file: " ++ cause.message
  | trace path cause => path ++ ": " ++ cause.message
  | fault cause => cause.message

/-- A unit that was checked. -/
structure CheckedUnit where
  /-- The report. -/
  report : Report
  /-- The diagnostics that are left. -/
  engine : Engine

/-- The unit has no errors left. -/
def CheckedUnit.accepted (u : CheckedUnit) : Bool := !u.engine.hasErrors

/-- A selected trace and what became of it. -/
structure Examination where
  /-- The path. -/
  path : String
  /-- The unit, or why it could not be checked. -/
  result : Except UnitError CheckedUnit

/-- How traces are examined. -/
structure Examiner (σ : Type) where
  /-- How units are checked. -/
  checker : CheckerConfig
  /-- How diagnostics are filtered and written. -/
  engine : EngineConfig
  /-- The id of the run. -/
  run : String
  /-- Opens a session.  The flag says that the caller has given up. -/
  opening : SolverConfig → Bool → Except Fault σ

namespace Examiner

variable {σ : Type}

/-- The trace in a file.  A trace without a unit name is named after its file. -/
def load (t : FileTree) (path : String) : Except UnitError Trace := do
  let text ← (t.read path).mapError .file
  (Trace.ofDocument (baseName path) (.ofString text)).mapError (.trace path)

/-- The report of a trace. -/
def report [Logic.Solver σ] (x : Examiner σ) (gaveUp : Juncture → Bool) (trace : Trace) :
    Except UnitError Report :=
  let c := trace.check x.checker x.run (x.opening x.checker.solver) gaveUp
  match c.fault, c.report with
  | some f, _ => .error (.fault f)
  | none, some r => .ok r
  | none, none => .error (.fault .cancelled)

/-- The diagnostics of a report that are left.  Snippets need the source. -/
def filter (x : Examiner σ) (trace : Trace) (r : Report) : Engine :=
  let config := if trace.source == "" then x.engine
    else { x.engine with sources := some ([(trace.unit, trace.source)], 0) }
  (r.diagnostics.foldl Engine.add (.empty config)).sort

/-- Examines one trace. -/
def examine [Logic.Solver σ] (x : Examiner σ) (t : FileTree) (path : String) : Examination :=
  { path
    result := do
      let trace ← load t path
      let report ← x.report Juncture.never trace
      return { report, engine := x.filter trace report } }

end Examiner

/-! ## Counting -/

/-- How many units were accepted and rejected, and how many failed. -/
structure Standing where
  accepted : Nat
  rejected : Nat
  failed : Nat
deriving Repr, DecidableEq

/-- The standing of examinations. -/
def Standing.of (es : List Examination) : Standing :=
  let count := fun (p : Except UnitError CheckedUnit → Bool) => (es.filter (p ·.result)).length
  { accepted := count fun
      | .ok u => u.accepted
      | .error _ => false
    rejected := count fun
      | .ok u => !u.accepted
      | .error _ => false
    failed := count fun
      | .ok _ => false
      | .error _ => true }

/-! ## Writing -/

namespace Examination

/-- One examination as text. -/
def render (e : Examination) : String :=
  match e.result with
  | .error cause => e.path ++ ": error: " ++ cause.message ++ "\n\n"
  | .ok u =>
    e.path ++ ": " ++ (if u.accepted then "accepted" else "rejected") ++
      s!" ({u.report.ledger.notes.length} proved)\n" ++ u.engine.render ++ "\n"

/-- Examinations as text. -/
def renderAll (es : List Examination) : String :=
  let s := Standing.of es
  String.join (es.map render) ++
    s!"verified {es.length} unit(s): {s.accepted} accepted, {s.rejected} rejected, {s.failed} failed\n"

/-- A span as text; nothing when it is not valid. -/
def spanText (s : Span) : String := if s.isValid then s.render else ""

/-- A field that is left out when its text is empty. -/
def textField (name text : String) : List (String × JsonValue) :=
  if text == "" then [] else [(name, .string text)]

/-- A diagnostic as JSON. -/
def diagnosticJson (d : Diagnostic) : JsonValue :=
  .object <|
    [("code", .string d.code), ("level", .string d.level.name), ("category", .string d.category.name),
      ("title", .string d.title), ("message", .string d.message)] ++
    textField "binding" d.binding ++ textField "span" (spanText d.span) ++
    textField "suggestion" d.suggestion ++
    (if d.related.isEmpty then []
     else [("related", .list (d.related.map fun r =>
      .object [("span", .string (spanText r.span)), ("message", .string r.message)]))])

/-- One examination as JSON. -/
def toJson (e : Examination) : JsonValue :=
  .object <| ("path", .string e.path) ::
    match e.result with
    | .error cause =>
      [("accepted", .bool false), ("proved", .int 0)] ++ textField "error" cause.message ++
        [("diagnostics", .list [])]
    | .ok u =>
      textField "unit" u.report.unit ++ textField "run_id" u.report.ledger.run ++
        [("accepted", .bool u.accepted), ("proved", .int u.report.ledger.notes.length),
          ("diagnostics", .list (u.engine.held.map diagnosticJson))]

/-- Examinations as JSON. -/
def allToJson (es : List Examination) : JsonValue :=
  let s := Standing.of es
  let status := if 0 < s.failed then "error" else if 0 < s.rejected then "rejected" else "ok"
  .object [("status", .string status), ("units", .list (es.map toJson)),
    ("accepted", .int s.accepted), ("rejected", .int s.rejected), ("failed", .int s.failed)]

/-- Examinations in the chosen form. -/
def write (asJson : Bool) (es : List Examination) : String :=
  if asJson then (allToJson es).render else renderAll es

end Examination

end ResourceSafety
