import ResourceSafety.Logic.Circuit
import ResourceSafety.Logic.Solver

/-!
# The in-process session

This session decides goals over unsigned 64-bit integers.  It translates terms
into words and formulas into literals of one circuit, and asks a SAT solver.

* A symbol is a word of its own.
* An application is one as well, known by its text: the same text always means
  the same word.  For every earlier application of the function there is a clause
  that the values are equal if the arguments are.
* A named fact is guarded by a literal of its own, its *guard*, which is assumed
  in every decision.  So the failed assumptions lead back to the names of facts.
* The goal of a decision is guarded in the same way.  Afterwards its guard is
  made false.

Applications stay known once they are translated.  That also holds for those of
goals decided earlier and of formulas refused half-way.
-/

namespace ResourceSafety.Logic

/-- An application seen by a session. -/
structure Application where
  /-- Its text. -/
  key : String
  /-- The function. -/
  function : String
  /-- The words of the arguments. -/
  args : List Bits
  /-- Its own word. -/
  result : Bits
deriving Repr

/-- A fact with a name. -/
structure NamedFact where
  /-- The name. -/
  name : String
  /-- The literal that is assumed for it. -/
  guard : Literal
deriving Repr

/-- The state of an in-process session. -/
structure BitBlaster where
  /-- The SAT solver. -/
  sat : SatSolver
  /-- The time limit of a decision in milliseconds; zero means none. -/
  timeout : UInt32 := 0
  /-- The clauses, and the variables in use. -/
  circuit : Circuit := .start
  /-- The declared symbols with their words, oldest first. -/
  constants : List (String × Bits) := []
  /-- The declared functions with their numbers of arguments. -/
  functions : List (String × Nat) := []
  /-- The applications seen so far, oldest first. -/
  applications : List Application := []
  /-- The named facts, oldest first. -/
  facts : List NamedFact := []
  /-- The session has ended. -/
  closed : Bool := false

namespace BitBlaster

/-- Builds a part of the circuit. -/
def build {α : Type} (m : Build α) : Action BitBlaster α :=
  modifyGet fun b =>
    let (x, circuit) := m.run b.circuit
    (x, { b with circuit })

/-! ## Terms and formulas -/

/-- An application has the value of another one of the function if its arguments have. -/
def congruence (a other : Application) : Build Unit := do
  let same ← (a.args.zip other.args).mapM fun (x, y) => Circuit.eqBits x y
  Circuit.clause [(← Circuit.andN same).negation, ← Circuit.eqBits a.result other.result]

/-- A further application, which has a word of its own. -/
def remember (key function : String) (args : List Bits) : Action BitBlaster Bits := do
  let result ← build Circuit.freshBits
  let a : Application := { key, function, args, result }
  build (((← get).applications.filter (·.function == function)).forM (congruence a))
  modify fun b => { b with applications := b.applications ++ [a] }
  return result

mutual

/-- The word of a term.  New applications become known. -/
def term : Term → Action BitBlaster Bits
  | .literal n => return (← get).circuit.constBits n
  | .symbol name => do
    match (← get).constants.lookup name with
    | some w => return w
    | none => throw (.unknownSymbol name)
  | .apply f args => do
    match (← get).functions.lookup f with
    | none => throw (.unknownSymbol f)
    | some arity =>
      if args.length ≠ arity then throw (.wrongArity f arity args.length)
      let key := (Term.apply f args).render
      match (← get).applications.find? (·.key == key) with
      | some a => return a.result
      | none => remember key f (← terms args)

/-- The words of terms, from left to right. -/
def terms : List Term → Action BitBlaster (List Bits)
  | [] => return []
  | t :: ts => return (← term t) :: (← terms ts)

end

/-- The literal of a comparison of two words. -/
def comparison (l r : Bits) : Comparison → Action BitBlaster Literal
  | .eq => build (Circuit.eqBits l r)
  | .ne => return (← build (Circuit.eqBits l r)).negation
  | .lt => build (Circuit.ultBits l r)
  | .le => return (← build (Circuit.ultBits r l)).negation
  | .gt => build (Circuit.ultBits r l)
  | .ge => return (← build (Circuit.ultBits l r)).negation
  | .other n => throw (.unknownComparison n)

mutual

/-- The literal of a formula. -/
def formula : Formula Term → Action BitBlaster Literal
  | .compare op l r => do
    let l ← term l
    let r ← term r
    comparison l r op
  | .all fs => do
    let ls ← formulas fs
    build (Circuit.andN ls)
  | .any fs => do
    let ls ← formulas fs
    build (Circuit.orN ls)
  | .not f => return (← formula f).negation
  | .truth b => do
    let c := (← get).circuit
    return if b then c.truth else c.falsity

/-- The literals of formulas, from left to right. -/
def formulas : List (Formula Term) → Action BitBlaster (List Literal)
  | [] => return []
  | f :: fs => return (← formula f) :: (← formulas fs)

end

/-! ## Models and cores -/

/-- The model of a valuation: every symbol and every application with its value. -/
def model (b : BitBlaster) (v : Valuation) : Model :=
  let shown := fun w => toString (b.circuit.bitsValue v w)
  let named := b.constants.map (fun c => (c.1, shown c.2)) ++
    b.applications.map fun a => (a.key, shown a.result)
  named.foldl (fun m (name, value) => m.insert name value) []

/-- The name of the fact with a guard.  The last one counts. -/
def factName? (b : BitBlaster) (l : Literal) : Option String :=
  (b.facts.reverse.find? (·.guard == l)).map (·.name)

/-- The names of the facts whose guards failed, in the order of the failed assumptions.  The
goal has no name. -/
def core (b : BitBlaster) (failed : List Literal) : List String := failed.filterMap b.factName?

/-! ## Requests -/

/-- A session that has ended refuses every request. -/
def requireOpen : Action BitBlaster Unit := do
  if (← get).closed then throw (.solverUnavailable "session closed" none)

/-- Declares a symbol.  A second declaration changes nothing. -/
def declareConstant (name : String) : Action BitBlaster Unit := do
  requireOpen
  match (← get).constants.lookup name with
  | some _ => return
  | none =>
    let w ← build Circuit.freshBits
    modify fun b => { b with constants := b.constants ++ [(name, w)] }

/-- Declares a function.  A second declaration must agree with the first. -/
def declareFunction (name : String) (arity : Nat) : Action BitBlaster Unit := do
  requireOpen
  match (← get).functions.lookup name with
  | some previous => if previous ≠ arity then throw (.redeclared name arity previous)
  | none => modify fun b => { b with functions := b.functions ++ [(name, arity)] }

/-- Adds a fact.  One without a name holds from then on. -/
def assert (name : String) (f : Formula Term) : Action BitBlaster Unit := do
  requireOpen
  let l ← formula f
  if name == "" then build (Circuit.clause [l])
  else
    let guard ← build Circuit.fresh
    build (Circuit.clause [guard.negation, l])
    modify fun b => { b with facts := b.facts ++ [{ name, guard }] }

/-- The answer of the SAT solver when a goal has the given guard. -/
def ask (b : BitBlaster) (guard : Literal) : SatAnswer :=
  b.sat.solve (if b.timeout = 0 then none else some b.timeout) b.circuit.clauses
    (b.facts.map (·.guard) ++ [guard])

/-- The verdict that an answer stands for. -/
def verdict (b : BitBlaster) : SatAnswer → Verdict
  | .satisfiable v => .sat (b.model v)
  | .unsatisfiable failed => .unsat (b.core failed)
  | .undecided => .unknown "timeout"

/-- Decides a goal. -/
def check (cancelled : Bool) (goal : Formula Term) : Action BitBlaster Verdict := do
  requireOpen
  if cancelled then throw .cancelled
  let l ← formula goal
  let guard ← build Circuit.fresh
  build (Circuit.clause [guard.negation, l])
  let b ← get
  let v := b.verdict (b.ask guard)
  build (Circuit.clause [guard.negation])
  return v

/-- Ends the session. -/
def close : Action BitBlaster Unit := modify fun b => { b with closed := true }

instance : Solver BitBlaster where
  declareConstant := declareConstant
  declareFunction := declareFunction
  assert := assert
  check := check
  close := close

end BitBlaster

end ResourceSafety.Logic
