import ResourceSafety.Diagnostic.Basic
import ResourceSafety.Source.Snippet

/-!
# The diagnostic engine

The engine collects diagnostics, filters them, orders them and writes them out.

* Diagnostics with an ignored code are dropped.
* Warnings count as errors when the configuration says so.
* With a limit on errors, the error that reaches the limit is the last that is
  kept.  One more diagnostic says that the rest was cut off, and everything
  after it is dropped until the engine is cleared.

The order puts diagnostics without a valid span last.  The others stand by
position, then by severity, then by code.
-/

namespace ResourceSafety

/-- How the engine filters and writes. -/
structure EngineConfig where
  /-- Codes that are dropped. -/
  ignore : List String := []
  /-- The limit on errors; none when it is not positive. -/
  maxErrors : Int64 := 0
  /-- Warnings count as errors. -/
  warningsAsErrors : Bool := false
  /-- Suggestions are written. -/
  suggestions : Bool := false
  /-- Related places are written. -/
  related : Bool := false
  /-- The sources for snippets, with the number of lines of context. -/
  sources : Option (Sources × Int64) := none
deriving Repr

/-- The diagnostics collected so far. -/
structure Engine where
  /-- How it filters and writes. -/
  config : EngineConfig
  /-- What it holds. -/
  held : List Diagnostic := []
  /-- The limit on errors was reached. -/
  truncated : Bool := false
deriving Repr

namespace Engine

/-- The engine without diagnostics. -/
def empty (config : EngineConfig) : Engine := { config }

/-- The diagnostics of a severity. -/
def withLevel (e : Engine) (level : Severity) : List Diagnostic := e.held.filter (·.level == level)

/-- The number of errors. -/
def errorCount (e : Engine) : Nat := (e.withLevel .error).length

/-- The number of warnings. -/
def warningCount (e : Engine) : Nat := (e.withLevel .warning).length

/-- Some diagnostic is an error. -/
def hasErrors (e : Engine) : Bool := e.held.any (·.level == .error)

/-- The diagnostic that ends a list cut off at its limit. -/
def limitNotice (limit : Int64) : Diagnostic :=
  { code := "E5000", title := "Too many errors", message := s!"stopping after {limit} errors" }

/-- A diagnostic as the engine takes it up. -/
def promote (config : EngineConfig) (d : Diagnostic) : Diagnostic :=
  if config.warningsAsErrors && d.level == .warning then { d with level := .error } else d

/-- The engine drops the diagnostic. -/
def drops (e : Engine) (d : Diagnostic) : Bool := e.truncated || e.config.ignore.contains d.code

/-- The errors have reached the limit. -/
def atLimit (e : Engine) : Bool :=
  0 < e.config.maxErrors && e.config.maxErrors.toInt ≤ (e.errorCount : Int)

/-- The engine with one more diagnostic. -/
def add (e : Engine) (d : Diagnostic) : Engine :=
  if e.drops d then e
  else
    let e := { e with held := e.held ++ [promote e.config d] }
    if e.atLimit then
      { e with truncated := true, held := e.held ++ [limitNotice e.config.maxErrors] }
    else e

/-- The level of a diagnostic after it was added. -/
def levelAfterAdd (e : Engine) (d : Diagnostic) : Severity :=
  if e.drops d then d.level else (promote e.config d).level

/-- The engine emptied. -/
def clear (e : Engine) : Engine := { e with held := [], truncated := false }

/-- The order of diagnostics. -/
def comesBefore (a b : Diagnostic) : Bool :=
  if a.span.isValid != b.span.isValid then a.span.isValid
  else match a.span.start.compare b.span.start with
    | .lt => true
    | .gt => false
    | .eq => if a.level.number ≠ b.level.number then a.level.number < b.level.number
             else a.code < b.code

/-- The engine with its diagnostics in order.  Those equal in it keep their
places. -/
def sort (e : Engine) : Engine :=
  { e with held := e.held.mergeSort fun a b => !comesBefore b a }

/-! ## Writing -/

/-- The place at the head of a line. -/
def placeText (p : Position) : String := s!"{p.file}:{p.line}:{p.column}: "

/-- One diagnostic as text. -/
def renderOne (config : EngineConfig) (d : Diagnostic) : String :=
  (if d.span.isValid then placeText d.span.start else "") ++
  d.level.name ++ "[" ++ d.code ++ "]: " ++ d.title ++ "\n" ++
  (if d.message != "" then "  " ++ d.message ++ "\n" else "") ++
  (match config.sources with
    | some (sources, context) => snippet sources context d.span
    | none => "") ++
  (if config.related then
    String.join (d.related.map fun r => "  note: " ++ placeText r.span.start ++ r.message ++ "\n")
   else "") ++
  (if config.suggestions && d.suggestion != "" then "  help: " ++ d.suggestion ++ "\n" else "")

/-- The counts at the end of the text. -/
def renderCounts (e : Engine) : String :=
  let (errors, warnings) := (e.errorCount, e.warningCount)
  let parts :=
    (if 0 < errors then [s!"{errors} error(s)"] else []) ++
    (if 0 < warnings then [s!"{warnings} warning(s)"] else [])
  if parts.isEmpty then "no issues found\n" else "found " ++ ", ".intercalate parts ++ "\n"

/-- All diagnostics in order as text, then the counts. -/
def render (e : Engine) : String :=
  if e.held.isEmpty then "no issues found\n"
  else
    let e := e.sort
    "\n".intercalate (e.held.map (renderOne e.config)) ++ "\n" ++ e.renderCounts

end Engine

end ResourceSafety
