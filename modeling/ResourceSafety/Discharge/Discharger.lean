import ResourceSafety.Discharge.Observation
import ResourceSafety.Ledger.Basic

/-!
# Discharging obligations

A discharger proves obligations against the facts it was told.  It keeps one
solver session, opened at the first request that needs it.

* `freshSymbol` makes a handle, a symbolic integer below `2 ^ 32`.
* `pushConstraint` and `assertShape` add facts.  A fact with the text of an
  earlier one is not added again.
* `discharge` decides one obligation, and `flush` decides the queued ones in
  order.

An obligation is turned into the goal that it fails.  A goal that cannot hold
proves it, and leaves a note in the ledger.  A goal that can hold refutes it,
and an undecided goal leaves it undecided; both give a violation.

Every symbol the discharger makes ends in a number that it uses once.
-/

namespace ResourceSafety

open Logic (Action Formula Solver Term Verdict)

/-- The state of a discharger over sessions of type `σ`. -/
structure Discharger (σ : Type) where
  /-- How obligations are decided. -/
  config : SolverConfig
  /-- Opens a session.  The flag says that the caller has given up. -/
  opening : Bool → Except Fault σ
  /-- The open session. -/
  session : Option σ := none
  /-- The sessions that are over, oldest first. -/
  ended : List σ := []
  /-- The number that the next name gets. -/
  nonce : Nat := 0
  /-- The names and texts of the facts, oldest first. -/
  facts : List (String × String) := []
  /-- The symbols of the handles, oldest first. -/
  handles : List String := []
  /-- The obligations still to be decided, oldest first. -/
  queue : List Obligation := []
  /-- The notes of the proofs. -/
  ledger : Ledger
  /-- What was observed, oldest first. -/
  observed : List Observation := []

namespace Discharger

/-! ## Names -/

/-- A letter of ASCII. -/
def isLetter (c : Char) : Bool := ('a' ≤ c && c ≤ 'z') || ('A' ≤ c && c ≤ 'Z')

/-- A character that may stand in a symbol. -/
def isSymbolChar (c : Char) : Bool := c == '_' || isLetter c || ('0' ≤ c && c ≤ '9')

/-- The symbol made from a text: other characters become underscores, and a
letter comes first. -/
def symbolStem (text : String) : String :=
  let cs := text.toList.map fun c => if isSymbolChar c then c else '_'
  match cs with
  | c :: _ => if isLetter c then String.ofList cs else String.ofList ('h' :: cs)
  | [] => "h"

variable {σ : Type}

/-- The next symbol made from a text. -/
def nextName (text : String) : Action (Discharger σ) String := do
  let d ← get
  set { d with nonce := d.nonce + 1 }
  return symbolStem text ++ toString d.nonce

variable [Solver σ]

/-! ## The session -/

/-- The open session, or a new one. -/
def ensure (cancelled : Bool) : Action (Discharger σ) σ := do
  let d ← get
  match d.session with
  | some s => return s
  | none =>
    let s ← MonadExcept.ofExcept (d.opening cancelled)
    match (Solver.declareFunction shapeFunction 2).perform s with
    | (.ok (), s) =>
      set { d with session := some s }
      return s
    | (.error fault, s) =>
      set { d with ended := d.ended ++ [(Solver.close.perform s).2] }
      throw fault

/-- A request to the session. -/
def request {α : Type} (cancelled : Bool) (a : Action σ α) : Action (Discharger σ) α := do
  let s ← ensure cancelled
  let (r, s) := a.perform s
  modify fun d => { d with session := some s }
  MonadExcept.ofExcept r

/-- Ends the session.  A later request opens another one. -/
def close : Action (Discharger σ) Unit := do
  let d ← get
  match d.session with
  | none => return
  | some s =>
    let (r, s) := Solver.close.perform s
    set { d with session := none, ended := d.ended ++ [s] }
    MonadExcept.ofExcept r

/-- All sessions, the open one last. -/
def sessions (d : Discharger σ) : List σ := d.ended ++ d.session.toList

/-! ## Facts -/

/-- The name of the fact with a number. -/
def factName (n : Nat) : String := s!"fact{n}"

/-- Adds a fact about known handles. -/
def pushConstraint (cancelled : Bool) (fact : Formula Term) : Action (Discharger σ) Unit := do
  let known := (← get).handles
  match fact.symbols.find? (!known.contains ·) with
  | some name => throw (.unknownSymbol name)
  | none =>
    let text := fact.render
    if (← get).facts.any (·.2 == text) then return
    let name := factName (← get).facts.length
    request cancelled (Solver.assert name fact)
    modify fun d => { d with facts := d.facts ++ [(name, text)] }

/-- The largest value of a fresh handle. -/
def handleMax : UInt64 := 4294967295

/-- The fact that a fresh symbol starts with. -/
def handleRange (symbol : String) : Formula Term :=
  .all [.compare .ge (.symbol symbol) (.literal 0),
    .compare .le (.symbol symbol) (.literal handleMax)]

/-- Makes a handle, and gives its symbol. -/
def freshSymbol (cancelled : Bool) (text : String) : Action (Discharger σ) String := do
  let _ ← ensure cancelled
  let name ← nextName text
  request cancelled (Solver.declareConstant name)
  modify fun d => { d with handles := d.handles ++ [name] }
  pushConstraint cancelled (handleRange name)
  return name

/-- Adds the facts that the dimensions of a tensor, from a place on, are the
given ones. -/
def pushDimensions (cancelled : Bool) (symbol : String) :
    Nat → List UInt64 → Action (Discharger σ) Unit
  | _, [] => return
  | i, d :: ds => do
    pushConstraint cancelled (.compare .eq (dimensionOf (.symbol symbol) i) (.literal d))
    pushDimensions cancelled symbol (i + 1) ds

/-- Adds the facts that a handle is a tensor with the given dimensions. -/
def assertShape (cancelled : Bool) (symbol : String) (dims : List UInt64) :
    Action (Discharger σ) Unit := do
  if !(← get).handles.contains symbol then throw (.unknownSymbol symbol)
  pushDimensions cancelled symbol 0 dims

/-! ## Obligations -/

/-- The reason an obligation cannot be stated, if there is one. -/
def refusal? (d : Discharger σ) (o : Obligation) : Option Fault :=
  match o.subject, o.condition with
  | .literal _, .range _ _ => none
  | .handle symbol, _ =>
    if d.handles.contains symbol then none else some (.unknownSymbol symbol)
  | subject, _ => some (.unsupportedSubject subject.render)

/-- Refuses an obligation that cannot be stated. -/
def requireStated (o : Obligation) : Action (Discharger σ) Unit := do
  match (← get).refusal? o with
  | some fault => throw fault
  | none => return

/-- The goal that an obligation fails, and the binding it is about.  A literal
is stood for by a fresh symbol. -/
def refutation (o : Obligation) : Action (Discharger σ) (Formula Term × String) := do
  match o.subject with
  | .literal n =>
    let name ← nextName "v"
    request false (Solver.declareConstant name)
    let v := Term.symbol name
    return (.all [.compare .eq v (.literal n), o.condition.failure v], "")
  | .handle symbol => return (o.condition.failure (.symbol symbol), symbol)
  | subject => throw (.unsupportedSubject subject.render)

/-- The note of a proof. -/
def noteOf (d : Discharger σ) (o : Obligation) (goal : Formula Term) (core : List String) : Note :=
  let facts := core.map fun name => (d.facts.lookup name).getD name
  { plugin := d.config.noteName, kind := o.condition.kindName ++ ".proved", span := o.span
    message := o.render, goal := goal.render, core := facts, derived := conjunctionText facts }

/-- What a verdict on the goal of an obligation means. -/
def conclude (o : Obligation) (binding : String) : Verdict → Outcome × Option Violation
  | .unsat _ => (.proved, none)
  | .sat model =>
    (.refuted, some
      { Violation.against .proofRefuted binding o.span .zero with
        obligation := o.render, model := model.render, assignments := model
        reason := "counterexample found" })
  | .unknown reason =>
    (.undecided, some
      { Violation.against .solverTimeout binding o.span .zero with
        obligation := o.render, reason })

/-- Writes down what a verdict means. -/
def record (o : Obligation) (goal : Formula Term) (outcome : Outcome) (v : Verdict)
    (d : Discharger σ) : Discharger σ :=
  let ledger := match v with
    | .unsat core => d.ledger.append (d.noteOf o goal core)
    | _ => d.ledger
  { d with ledger, observed := d.observed ++ [.obligation o.condition.kindName outcome] }

/-- Decides an obligation that can be stated. -/
def solve (o : Obligation) : Action (Discharger σ) (Outcome × Option Violation) := do
  let _ ← ensure false
  let (goal, binding) ← refutation o
  let s ← ensure false
  let (r, s) := (Solver.check false goal).perform s
  modify fun d =>
    { d with session := some s, observed := d.observed ++ [.decision d.config.profile] }
  match r with
  | .error fault => throw (.within ("discharge " ++ o.render) fault)
  | .ok verdict =>
    let result := conclude o binding verdict
    modify (record o goal result.1 verdict)
    return result

/-- Decides an obligation now. -/
def discharge (cancelled : Bool) (o : Obligation) :
    Action (Discharger σ) (Outcome × Option Violation) := do
  requireStated o
  if cancelled then throw .cancelled
  solve o

/-- Queues an obligation.  One that can never be stated is refused at once. -/
def enqueue (o : Obligation) : Action (Discharger σ) Unit := do
  requireStated o
  modify fun d => { d with queue := d.queue ++ [o] }

/-- Decides the given obligations, which are the queue.  `gaveUp i` says
whether the caller has given up before obligation `i`.  The result is the
violations found and the fault that ended the work, if there was one. -/
def flushFrom (gaveUp : Nat → Bool) :
    Nat → List Obligation → StateM (Discharger σ) (List Violation × Option Fault)
  | _, [] => return ([], none)
  | i, o :: rest => do
    if gaveUp i then return ([], some .cancelled)
    let r ← (solve o).run
    modify fun d => { d with queue := rest }
    match r with
    | .error fault => return ([], some fault)
    | .ok (_, v) =>
      let (found, fault) ← flushFrom gaveUp (i + 1) rest
      return (v.toList ++ found, fault)

/-- Decides the queue in order.  The obligations that were not started stay. -/
def flush (gaveUp : Nat → Bool) : StateM (Discharger σ) (List Violation × Option Fault) := do
  flushFrom gaveUp 0 (← get).queue

end Discharger

end ResourceSafety
