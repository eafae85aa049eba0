import ResourceSafety.Logic.SExpr
import ResourceSafety.Version

/-!
# The external session

This session talks to a solver program over a pair of streams.  Everything it
sends is a line, and everything it receives is a response.  So the whole
conversation is a value: the lines sent so far and the characters still to be
read.

Declarations and facts are sent at the base level.  A goal is asserted between
a push and a pop.  The pop is sent on every way out as long as the session is
open, so no goal stays behind.

A stream that ends gives the fault "read from z3".  A stream that stays open
without a response keeps the solver waiting; it is killed then, and the session
is over.
-/

namespace ResourceSafety.Logic

/-- A solver program that can be started. -/
structure SolverProgram where
  /-- What it prints when asked for its version. -/
  version : String
  /-- The exit code of that run. -/
  exitCode : Int := 0
  /-- What it prints in a session. -/
  replies : String := ""
  /-- Its output stays open after the replies. -/
  hangs : Bool := false
deriving Repr, DecidableEq

/-- The state of a conversation. -/
structure External where
  /-- The version of the solver. -/
  version : Version
  /-- What is still to be read. -/
  unread : List Char
  /-- The stream stays open when everything is read. -/
  hangs : Bool
  /-- The lines sent so far, oldest first. -/
  sent : List String := []
  /-- The declared symbols. -/
  constants : List String := []
  /-- The declared functions with their numbers of arguments. -/
  functions : List (String × Nat) := []
  /-- The session has ended. -/
  closed : Bool := false
deriving Repr

namespace External

/-! ## Starting -/

/-- Digits, a dot, and what follows. -/
def digitsDot? (cs : List Char) : Option (List Char × List Char) :=
  match cs.dropWhile Version.isDigit with
  | '.' :: rest =>
    let digits := cs.takeWhile Version.isDigit
    if digits.isEmpty then none else some (digits, rest)
  | _ => none

/-- Three numbers divided by dots at the head of the characters. -/
def tripleHere? (cs : List Char) : Option (List Char) := do
  let (a, cs) ← digitsDot? cs
  let (b, cs) ← digitsDot? cs
  let c := cs.takeWhile Version.isDigit
  if c.isEmpty then none else some (a ++ '.' :: b ++ '.' :: c)

/-- The first three numbers divided by dots. -/
def triple? : List Char → Option (List Char)
  | [] => none
  | c :: cs => tripleHere? (c :: cs) <|> triple? cs

/-- The oldest version that is accepted, as a requirement. -/
def requirement : String := ">= 4.8"

/-- Accepts a version that meets the requirement. -/
def checkVersion (versions : Versions) (v : Version) : Except Fault Unit :=
  if versions.meets v requirement then .ok ()
  else .error (.solverUnavailable ("z3 " ++ v.render ++ " does not satisfy " ++ requirement) none)

/-- The version that a program reports. -/
def reportedVersion (versions : Versions) (path : String) (program : SolverProgram)
    (cancelled : Bool) : Except Fault Version := do
  if cancelled || program.exitCode ≠ 0 then
    throw (.solverUnavailable ("cannot run " ++ path) none)
  match triple? program.version.toList with
  | none =>
    throw (.solverUnavailable
      ("unrecognised version output " ++ Text.quote (Text.trim program.version)) none)
  | some cs =>
    let text := String.ofList cs
    match versions.read text with
    | .ok v => return v
    | .error _ => throw (.solverUnavailable ("bad version " ++ text) none)

/-- The lines that open a session. -/
def setup (timeout : Nat) : List String :=
  ["(set-option :print-success false)", "(set-option :produce-models true)",
   "(set-option :produce-unsat-cores true)"] ++
  (if timeout = 0 then [] else [s!"(set-option :timeout {timeout})"]) ++
  ["(set-logic QF_UFLIA)"]

/-- Starts the program found at a path.  An empty path stands for `z3`. -/
def start (versions : Versions) (find : String → Option SolverProgram) (path : String)
    (timeout : Nat) (cancelled : Bool) : Except Fault External := do
  let path := if path == "" then "z3" else path
  match find path with
  | none => throw (.solverUnavailable (path ++ " not found") none)
  | some program =>
    let version ← reportedVersion versions path program cancelled
    checkVersion versions version
    return { version, unread := program.replies.toList, hangs := program.hangs, sent := setup timeout }

/-! ## Sending and receiving -/

/-- Sends one line. -/
def send (line : String) : Action External Unit := do
  if (← get).closed then throw (.solverUnavailable "session closed" none)
  modify fun s => { s with sent := s.sent ++ [line] }

/-- Receives one response.  A response that reports an error is a fault. -/
def receive : Action External String := do
  let s ← get
  let response := if s.hangs then Response.completeFrom {} s.unread else Response.next? s.unread
  match response with
  | none =>
    set { s with unread := [], closed := s.closed || s.hangs }
    throw (if s.hangs then .badReply .hung else .solverUnavailable "read from z3" (some "EOF"))
  | some (text, rest) =>
    set { s with unread := rest }
    if text.startsWith "(error" then throw (.badReply (.reported text))
    return text

/-! ## Requests -/

/-- Declares a symbol.  A second declaration sends nothing. -/
def declareConstant (name : String) : Action External Unit := do
  if (← get).constants.contains name then return
  send ("(declare-const " ++ name ++ " Int)")
  modify fun s => { s with constants := s.constants ++ [name] }

/-- Declares a function.  A second declaration must agree with the first. -/
def declareFunction (name : String) (arity : Nat) : Action External Unit := do
  match (← get).functions.lookup name with
  | some previous => if previous ≠ arity then throw (.redeclared name arity previous)
  | none =>
    let params := " ".intercalate (List.replicate arity "Int")
    send ("(declare-fun " ++ name ++ " (" ++ params ++ ") Int)")
    modify fun s => { s with functions := s.functions ++ [(name, arity)] }

/-- Refuses a formula with a symbol that was not declared. -/
def requireSymbols (f : Formula Term) : Action External Unit := do
  let known := (← get).constants
  match f.symbols.find? (!known.contains ·) with
  | some name => throw (.unknownSymbol name)
  | none => return

/-- Adds a fact. -/
def assert (name : String) (f : Formula Term) : Action External Unit := do
  requireSymbols f
  if name == "" then send ("(assert " ++ f.render ++ ")")
  else send ("(assert (! " ++ f.render ++ " :named " ++ name ++ "))")

/-- Asks for the reason of an unknown answer. -/
def askReason : Action External String :=
  tryCatch (do
    send "(get-info :reason-unknown)"
    return Response.reason (← receive))
    fun _ => return "unknown"

/-- Asks for the verdict on the goal just asserted, and for what goes with
it. -/
def askVerdict : Action External Verdict := do
  let status ← receive
  match status with
  | "sat" =>
    send "(get-model)"
    let text ← receive
    match Response.model text with
    | .ok m => return .sat m
    | .error e => throw (.badReply e)
  | "unsat" =>
    send "(get-unsat-core)"
    let text ← receive
    match Response.core text with
    | .ok names => return .unsat names
    | .error e => throw (.badReply e)
  | "unknown" => return .unknown (← askReason)
  | other => throw (.badReply (.notAVerdict other))

/-- Asserts a goal and asks for the verdict.  A solver that does not answer the
first question in time leaves the goal undecided. -/
def decideGoal (goal : Formula Term) : Action External Verdict := do
  send ("(assert " ++ goal.render ++ ")")
  send "(check-sat)"
  tryCatch askVerdict fun fault => do
    if fault == .badReply .hung && (← get).sent.getLast? == some "(check-sat)" then
      return .unknown "solver killed after timeout"
    else throw fault

/-- Takes the goal back, when the session is still open. -/
def popGoal : Action External Unit := do
  if !(← get).closed then send "(pop 1)"

/-- Decides a goal between push and pop. -/
def check (cancelled : Bool) (goal : Formula Term) : Action External Verdict := do
  if cancelled then throw .cancelled
  requireSymbols goal
  send "(push 1)"
  let verdict ← tryCatch (decideGoal goal) fun fault => do
    popGoal
    throw fault
  popGoal
  return verdict

/-- Ends the session.  A second end changes nothing. -/
def close : Action External Unit := do
  if !(← get).closed then
    send "(exit)"
    modify fun s => { s with closed := true }

instance : Solver External where
  declareConstant := declareConstant
  declareFunction := declareFunction
  assert := assert
  check := check
  close := close

end External

end ResourceSafety.Logic
