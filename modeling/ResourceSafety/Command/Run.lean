import ResourceSafety.Command.Digest
import ResourceSafety.Command.Invocation
import ResourceSafety.Command.Selection
import ResourceSafety.Ledger.File
import ResourceSafety.Watch.Targets

/-!
# Running commands

A command reads files, writes to its output and perhaps a file, and ends with an
exit code: zero when every unit was accepted, one when a unit was rejected, two
for everything else that went wrong.

A watch goes on after its first check.  It keeps the directories it looks at,
and it checks a trace again when the file is changed.  Here the changes come
one after the other, as *edits* of the tree.
-/

namespace ResourceSafety

/-- Why a command failed. -/
inductive CommandError
  | usage (cause : UsageError)
  | badFormat (name : String)
  | configFile (cause : FileTree.ReadError)
  | config (path : String) (cause : ConfigError)
  | logging (cause : ConfigError)
  | noJobs
  | options (cause : ConfigError)
  | selection (cause : SelectionError)
  | ledgerFile (cause : FileTree.ReadError)
  | ledger (cause : LedgerError)
  | loading (cause : UnitError)
  | checking (cause : UnitError)
  | saving (cause : FileTree.ReadError)
  | watching (path : String) (cause : FileError)
  | failed (units : Nat)
  | rejected (units : Nat)
  | cancelled
deriving Repr, DecidableEq

namespace CommandError

/-- The wording of an error. -/
def message : CommandError → String
  | usage cause => cause.message
  | badFormat name => "invalid format " ++ Text.quote name ++ ": must be one of [text json]"
  | configFile cause => "load config: failed to read config file: " ++ cause.message
  | config path cause => "load config: " ++ path ++ ": " ++ cause.message
  | logging cause => "configure logging: " ++ cause.message
  | noJobs => "invalid options: --jobs must be at least 1"
  | options cause => "invalid options: " ++ cause.message
  | selection cause => "expand paths: " ++ cause.message
  | ledgerFile (.opening path cause) => "load ledger: open " ++ path ++ ": " ++ cause.message
  | ledgerFile (.reading path cause) =>
    "load ledger: decode ledger: read " ++ path ++ ": " ++ cause.message
  | ledger cause => "load ledger: " ++ cause.message
  | loading cause => "load trace: " ++ cause.message
  | checking cause => "check trace: " ++ cause.message
  | saving cause => "save ledger: " ++ cause.message
  | watching path cause => "start watcher: stat " ++ path ++ ": " ++ cause.message
  | failed units => s!"{units} unit(s) could not be checked"
  | rejected units => s!"{units} unit(s) rejected"
  | cancelled => "context canceled"

/-- The exit code of an error. -/
def exitCode : CommandError → Nat
  | rejected _ => 1
  | _ => 2

end CommandError

/-- A change that is made while a watch runs. -/
inductive Edit
  | write (path text : String)
  | remove (path : String)
  | makeDirectory (path : String)
deriving Repr, DecidableEq

/-- What a command runs in. -/
structure Surroundings (σ : Type) where
  /-- The files. -/
  tree : FileTree := {}
  /-- Opens a session.  The flag says that the caller has given up. -/
  opening : SolverConfig → Bool → Except Fault σ
  /-- Reads versions. -/
  versions : Versions := .semantic
  /-- The id of the run. -/
  run : String := ""
  /-- What the tool runs on. -/
  host : Host := {}
  /-- The caller has given up. -/
  cancelled : Bool := false
  /-- The changes that are made while a watch runs. -/
  edits : List Edit := []

/-- What a command leaves behind. -/
structure CommandResult where
  /-- Its output. -/
  output : String := ""
  /-- The files. -/
  tree : FileTree
  /-- What went wrong. -/
  failure : Option CommandError := none

/-- The exit code of a command. -/
def CommandResult.exitCode (r : CommandResult) : Nat := (r.failure.map (·.exitCode)).getD 0

/-! ## Options and configuration -/

namespace Surroundings

variable {σ : Type}

/-- The configuration at a path.  A file that is not there stands for the usual
one. -/
def loadConfig (s : Surroundings σ) (path : String) : Except CommandError Config :=
  if path == "" then .ok {}
  else match s.tree.read path with
    | .error (.opening _ .notFound) => .ok {}
    | .error e => .error (.configFile e)
    | .ok text => (Config.ofString text).mapError (.config path)

/-- The configuration of a command, before its options are laid over it. -/
def setup (s : Surroundings σ) (o : Options) : Except CommandError Config := do
  if o.format != "text" && o.format != "json" then throw (.badFormat o.format)
  let config ← s.loadConfig o.configPath
  let level := if o.verbose then "debug"
    else if o.logLevel != "" then o.logLevel else config.logLevel
  discard <| (Config.readLevel level).mapError .logging
  return config

/-- The configuration with the options of the command. -/
def applyOptions (o : Options) (c : Config) : Except CommandError Config := do
  if o.jobs < 1 then throw .noJobs
  let c := o.override c
  c.validate.mapError .options
  return c

/-- The examiner of a configuration. -/
def examiner (s : Surroundings σ) (c : Config) : Examiner σ :=
  { checker := c.checker, engine := c.engine, run := s.run, opening := s.opening }

/-! ## Checking -/

variable [Logic.Solver σ]

/-- Examines traces, unless the caller has given up. -/
def examineAll (s : Surroundings σ) (c : Config) (t : FileTree) (paths : List String) :
    Except CommandError (List Examination) :=
  if s.cancelled then .error .cancelled
  else .ok (paths.map ((s.examiner c).examine t))

/-- The error that a standing amounts to. -/
def verdict? (es : List Examination) : Option CommandError :=
  let standing := Standing.of es
  if 0 < standing.failed then some (.failed standing.failed)
  else if 0 < standing.rejected then some (.rejected standing.rejected)
  else none

/-- Checks traces. -/
def verify (s : Surroundings σ) (i : Invocation) (c : Config) : Except CommandError CommandResult := do
  let paths ← (s.tree.select i.arguments).mapError .selection
  let es ← s.examineAll c s.tree paths
  return { output := Examination.write (i.options.format == "json") es, tree := s.tree
           failure := verdict? es }

/-! ## Summaries -/

/-- The ledger that a summary is about, and the declarations it is grouped by. -/
def ledgerAt (s : Surroundings σ) (c : Config) (path : String) :
    Except CommandError (Ledger × List Decl) := do
  if extension path == ".json" then
    let text ← (s.tree.read path).mapError .ledgerFile
    return (← (Ledger.load s.versions text).mapError .ledger, [])
  else
    let trace ← (Examiner.load s.tree path).mapError .loading
    let report ← ((s.examiner c).report (fun _ => s.cancelled) trace).mapError .checking
    return (report.ledger, report.decls)

/-- Counts the notes of a trace or of a saved ledger. -/
def summarize (s : Surroundings σ) (i : Invocation) (c : Config) (path : String) :
    Except CommandError CommandResult := do
  let (ledger, decls) ← s.ledgerAt c path
  let tree ← if i.options.save == "" then .ok s.tree
    else (s.tree.write i.options.save ledger.save).mapError .saving
  return { output := (ledger.summarize decls).write (i.options.format == "json") ledger, tree }

end Surroundings

/-! ## Watching -/

/-- A watch after its first check. -/
structure Watch where
  /-- The files. -/
  tree : FileTree
  /-- What is watched for. -/
  targets : WatchTargets
  /-- The watched directories: their places and their paths. -/
  watched : List (List String × String) := []
  /-- The output so far. -/
  output : String := ""

namespace Watch

/-- A name that begins with a dot. -/
def isHidden (name : String) : Bool := name.startsWith "."

/-- The directories that a root asks to watch: the directory of a file, or a
directory with those below it that are not hidden. -/
def directoriesOf (t : FileTree) (root : String) : Except CommandError (List (List String × String)) :=
  match t.find root with
  | .error e => .error (.watching root e)
  | .ok (.outside _, _) => .ok []
  | .ok (.inside place, .file _) => .ok [(place.dropLast, directoryOf root)]
  | .ok (.inside place, .directory) =>
    .ok ((place, cleanPath root) ::
      ((t.directoriesBelow (.inside place)).filter (·.all (!isHidden ·))).map fun d =>
        (place ++ d, (Path.under root ("/".intercalate d)).render))

/-- Starts to watch. -/
def start (t : FileTree) (arguments : List String) : Except CommandError Watch := do
  let targets := WatchTargets.ofArguments t.isDirectory arguments
  let watched ← targets.roots.mapM (directoriesOf t)
  return { tree := t, targets, watched := watched.flatten }

/-- The path under which a change at a place is noticed. -/
def noticedAs? (w : Watch) (place : List String) : Option String :=
  match place.getLast? with
  | none => none
  | some name => (w.watched.lookup place.dropLast).map (· ++ "/" ++ name)

/-- One edit.  A changed trace is examined again.  A new directory is watched too,
unless it is hidden. -/
def edit {σ : Type} [Logic.Solver σ] (s : Surroundings σ) (c : Config) (asJson : Bool) (w : Watch)
    (e : Edit) : Watch :=
  match e with
  | .makeDirectory path =>
    let place := (Path.ofString path).elements
    let w' := { w with tree := w.tree.addDirectory place }
    match w.noticedAs? place with
    | some noticed =>
      if isHidden (baseName noticed) then w'
      else { w' with watched := w.watched ++ [(place, cleanPath noticed)] }
    | none => w'
  | .remove path => { w with tree := w.tree.remove (Path.ofString path).elements }
  | .write path text =>
    let place := (Path.ofString path).elements
    let w := { w with tree := w.tree.addFile place text }
    match w.noticedAs? place with
    | some noticed =>
      if w.targets.accepts noticed then
        { w with output := w.output ++
            Examination.write asJson [(s.examiner c).examine w.tree noticed] }
      else w
    | none => w

end Watch

namespace Surroundings

variable {σ : Type} [Logic.Solver σ]

/-- Checks traces, and checks them again when they change. -/
def watch (s : Surroundings σ) (i : Invocation) (c : Config) : Except CommandError CommandResult := do
  let asJson := i.options.format == "json"
  let paths ← (s.tree.select i.arguments).mapError .selection
  let es ← s.examineAll c s.tree paths
  let output := Examination.write asJson es
  match Watch.start s.tree i.arguments with
  | .error e => return { output, tree := s.tree, failure := some e }
  | .ok w =>
    let w := s.edits.foldl (Watch.edit s c asJson) { w with output }
    return { output := w.output, tree := w.tree }

/-! ## Commands -/

/-- Runs a command. -/
def invoke (s : Surroundings σ) (i : Invocation) : Except CommandError CommandResult := do
  let config ← s.setup i.options
  match i.command, i.arguments with
  | .version, _ =>
    return { output := s.host.write (i.options.format == "json") toolName, tree := s.tree }
  | .verify, _ => s.verify i (← applyOptions i.options config)
  | .watch, _ => s.watch i (← applyOptions i.options config)
  | .summary, path :: _ => s.summarize i (← applyOptions i.options config) path
  | .summary, [] => throw (.usage (.notOneArgument 0))

/-- Runs the command that words mean. -/
def runWords (s : Surroundings σ) (words : List String) : CommandResult :=
  match Invocation.ofWords words with
  | .error e => { tree := s.tree, failure := some (.usage e) }
  | .ok none => { tree := s.tree }
  | .ok (some i) =>
    match s.invoke i with
    | .ok r => r
    | .error e => { tree := s.tree, failure := some e }

end Surroundings

end ResourceSafety
