import ResourceSafety.Command.Flag
import ResourceSafety.Config

/-!
# The command line

The tool has four commands.

* `verify` checks traces and reports diagnostics.
* `watch` checks traces and checks them again when they change.
* `summary` counts the proved obligations of a trace or a saved ledger.
* `version` tells the version.

The command is the first word that is no flag and no value of one.  Four flags
belong to every command.  The flags that override the configuration belong to
the first three.  Asking for help ends everything else.
-/

namespace ResourceSafety

/-- The name of the tool. -/
def toolName : String := "capcheck"

/-- A command of the tool. -/
inductive Command
  | verify
  | watch
  | summary
  | version
deriving Repr, DecidableEq

/-- The name of a command. -/
def Command.name : Command → String
  | verify => "verify"
  | watch => "watch"
  | summary => "summary"
  | version => "version"

/-- The commands in order. -/
def Command.all : List Command := [verify, watch, summary, version]

/-- The options of a command. -/
structure Options where
  /-- Everything is logged. -/
  verbose : Bool := false
  /-- The form of the output. -/
  format : String := "text"
  /-- The configuration file. -/
  configPath : String := "capcheck.yaml"
  /-- The log level; empty for that of the configuration. -/
  logLevel : String := ""
  /-- Help is asked for. -/
  help : Bool := false
  strict : Option Bool := none
  profile : Option String := none
  timeout : Option UInt32 := none
  solverPath : Option String := none
  unknownAsError : Option Bool := none
  warningsAsErrors : Option Bool := none
  maxErrors : Option Int64 := none
  /-- How many units are checked at a time. -/
  jobs : Int64 := 1
  /-- Where the ledger is saved; empty for nowhere. -/
  save : String := ""
  /-- Where metrics are served; empty for nowhere. -/
  metricsAddress : String := ""
  /-- How long changes are collected, in nanoseconds. -/
  debounce : Int := 200000000
deriving Repr, DecidableEq

namespace Options

/-- The flags of every command. -/
def sharedFlags : List (Flag Options) :=
  [.switch "verbose" (some 'v') fun b o => { o with verbose := b },
    .text "format" none fun s o => { o with format := s },
    .text "config" (some 'c') fun s o => { o with configPath := s },
    .text "log-level" none fun s o => { o with logLevel := s }]

/-- The flag that asks for help. -/
def helpFlag : Flag Options := .switch "help" (some 'h') fun b o => { o with help := b }

/-- The flags that override the configuration. -/
def checkFlags : List (Flag Options) :=
  [.switch "strict" none fun b o => { o with strict := some b },
    .text "profile" none fun s o => { o with profile := some s },
    .unsigned "timeout-ms" fun n o => { o with timeout := some n },
    .text "z3" none fun s o => { o with solverPath := some s },
    .switch "unknown-as-error" none fun b o => { o with unknownAsError := some b },
    .switch "warnings-as-errors" none fun b o => { o with warningsAsErrors := some b },
    .signed "max-errors" none fun n o => { o with maxErrors := some n },
    .signed "jobs" (some 'j') fun n o => { o with jobs := n }]

/-- The flags of a command. -/
def flagsOf : Command → List (Flag Options)
  | .verify => sharedFlags ++ helpFlag :: checkFlags
  | .summary =>
    sharedFlags ++ helpFlag :: checkFlags ++ [.text "save" (some 'o') fun s o => { o with save := s }]
  | .watch =>
    sharedFlags ++ helpFlag :: checkFlags ++
      [.text "metrics-addr" none fun s o => { o with metricsAddress := s },
        .duration "debounce" fun n o => { o with debounce := n }]
  | .version => sharedFlags ++ [helpFlag]

/-- The configuration with the options laid over it. -/
def override (o : Options) (c : Config) : Config :=
  { c with
    strictMode := o.strict.getD c.strictMode
    profile := o.profile.getD c.profile
    timeout := o.timeout.getD c.timeout
    solverPath := o.solverPath.getD c.solverPath
    unknownAsError := o.unknownAsError.getD c.unknownAsError
    warningsAsErrors := o.warningsAsErrors.getD c.warningsAsErrors
    maxErrors := o.maxErrors.getD c.maxErrors }

end Options

/-! ## Unknown commands -/

/-- One more row of the table of edit distances: `above` is the row for the part
of the first text before `a`, and `first` starts the new row. -/
def nextDistances (a : UInt8) : List UInt8 → List Nat → Nat → List Nat
  | b :: bs, diagonal :: up :: above, left =>
    let d := if a == b then diagonal else 1 + min diagonal (min up left)
    d :: nextDistances a bs (up :: above) d
  | _, _, _ => []

/-- The number of single changes that turn one text into another. -/
def editDistance (s t : Text.Bytes) : Nat :=
  let start := List.range (t.length + 1)
  let row := s.foldl (fun row a =>
    let first := row.head?.getD 0 + 1
    first :: nextDistances a t row first) start
  row.getLast?.getD 0

/-- The commands that can be meant by a mistyped name: those that it begins, and
those at most two changes away. -/
def similarCommands (name : String) : List String :=
  (Command.all.map Command.name ++ ["completion"]).filter fun c =>
    editDistance (.ofString (Text.lower name)) (.ofString c) ≤ 2 ||
      (Text.lower name).toList.isPrefixOf c.toList

/-! ## Invocations -/

/-- What is wrong with a command line. -/
inductive UsageError
  | unknownCommand (name : String) (similar : List String)
  | flags (cause : FlagError)
  /-- A command without arguments was given one. -/
  | unexpectedArgument (command : Command) (argument : String)
  | tooFewArguments (given : Nat)
  | notOneArgument (given : Nat)
deriving Repr, DecidableEq

/-- The wording of an error. -/
def UsageError.message : UsageError → String
  | unknownCommand name similar =>
    "unknown command " ++ Text.quote name ++ " for " ++ Text.quote toolName ++
      (if similar.isEmpty then ""
       else "\n\nDid you mean this?\n" ++ String.join (similar.map fun c => "\t" ++ c ++ "\n"))
  | flags cause => cause.message
  | unexpectedArgument command argument =>
    "unknown command " ++ Text.quote argument ++ " for " ++
      Text.quote (toolName ++ " " ++ command.name)
  | tooFewArguments given => s!"requires at least 1 arg(s), only received {given}"
  | notOneArgument given => s!"accepts 1 arg(s), received {given}"

/-- A command with its options and arguments. -/
structure Invocation where
  command : Command
  options : Options
  arguments : List String
deriving Repr, DecidableEq

namespace Invocation

/-- Refuses the wrong number of arguments. -/
def checkArguments (command : Command) (arguments : List String) : Except UsageError Unit :=
  match command, arguments with
  | .version, a :: _ => .error (.unexpectedArgument command a)
  | .version, [] => .ok ()
  | .summary, [_] => .ok ()
  | .summary, given => .error (.notOneArgument given.length)
  | _, [] => .error (.tooFewArguments 0)
  | _, _ :: _ => .ok ()

/-- The words without the command, and the command; nothing when the words name
none. -/
def splitCommand (words : List String) : Except UsageError (Option (Command × List String)) :=
  let fuel := words.length + 1
  match plainWords Options.sharedFlags fuel words with
  | [] => .ok none
  | name :: _ =>
    match Command.all.find? (·.name == name) with
    | some c => .ok (some (c, dropPlainWord Options.sharedFlags name fuel words))
    | none =>
      if name == "help" || name == "completion" then .ok none
      else .error (.unknownCommand name (similarCommands name))

/-- The invocation that words mean; nothing when help is to be shown. -/
def ofWords (words : List String) : Except UsageError (Option Invocation) := do
  match ← splitCommand words with
  | none =>
    discard <| (readWords (Options.sharedFlags ++ [Options.helpFlag]) words {}).mapError .flags
    return none
  | some (command, words) =>
    let (options, arguments) ←
      (readWords (Options.flagsOf command) words {}).mapError .flags
    if options.help then return none
    checkArguments command arguments
    return some { command, options, arguments }

end Invocation

end ResourceSafety
