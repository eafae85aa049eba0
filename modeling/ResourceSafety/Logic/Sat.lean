/-!
# Clauses and SAT solvers

A *literal* is a Boolean variable or its negation, and a *clause* is the
disjunction of some literals.  A SAT solver is asked whether clauses can hold
together with further literals that are assumed for this one question.

* When they can, its answer is a valuation of the variables.
* When they cannot, its answer is the *failed* assumptions, those that the
  refutation made use of.
* It may also give up, when there is a limit on the time.

The solver itself is not part of this library, and a session works with any.
So a solver is a function here.  No session asks the same question twice, for
every goal brings a clause of its own.  That makes a function of the clauses as
good as a solver with a memory.
-/

namespace ResourceSafety.Logic

/-- A variable or its negation.  Variables are numbered from one. -/
structure Literal where
  /-- The variable. -/
  var : Nat
  /-- It is not negated. -/
  isPositive : Bool
deriving Repr, DecidableEq, Inhabited

/-- Truth values of the variables. -/
abbrev Valuation := Nat → Bool

/-- The valuation with another value of a variable. -/
def Valuation.withValue (v : Valuation) (x : Nat) (b : Bool) : Valuation :=
  fun y => if y = x then b else v y

namespace Literal

/-- A variable as it is. -/
def positive (x : Nat) : Literal := ⟨x, true⟩

/-- The opposite literal. -/
def negation (l : Literal) : Literal := ⟨l.var, !l.isPositive⟩

/-- The literal is true. -/
def holds (v : Valuation) (l : Literal) : Bool := v l.var == l.isPositive

@[simp] theorem var_negation (l : Literal) : l.negation.var = l.var := rfl

@[simp] theorem holds_positive (v : Valuation) (x : Nat) : (positive x).holds v = v x :=
  beq_true (v x)

@[simp] theorem holds_negation (v : Valuation) (l : Literal) :
    l.negation.holds v = !l.holds v := by
  cases l with
  | mk x s => cases s <;> cases h : v x <;> simp [negation, holds, h]

end Literal

/-- A disjunction of literals. -/
abbrev Clause := List Literal

/-- Some literal of the clause is true. -/
def Clause.holds (v : Valuation) (c : Clause) : Bool := c.any (·.holds v)

theorem Clause.holds_iff {v : Valuation} {c : Clause} :
    c.holds v = true ↔ ∃ l ∈ c, l.holds v = true := List.any_eq_true

/-- What a SAT solver says about clauses and assumed literals. -/
inductive SatAnswer
  /-- They hold with these values. -/
  | satisfiable (values : Valuation)
  /-- They do not hold together, and these assumptions are to blame. -/
  | unsatisfiable (failed : List Literal)
  /-- It gave up. -/
  | undecided

/-- A SAT solver. -/
structure SatSolver where
  /-- The answer on clauses, the newest first, and assumed literals.  A limit is
  a time in milliseconds. -/
  solve : Option UInt32 → List Clause → List Literal → SatAnswer

end ResourceSafety.Logic
