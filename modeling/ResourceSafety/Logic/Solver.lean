import ResourceSafety.Fault
import ResourceSafety.Logic.Formula

/-!
# Solver sessions

A session takes declarations and facts, which stay, and decides goals against
them, which do not.  `Solver σ` is what a session of type `σ` can do.

A request runs on the session and may be refused.  A refused request may still
have changed the session, as when the first half of a formula was understood.
So an `Action` always gives the session after it, also with a fault.
-/

namespace ResourceSafety.Logic

/-- A request to something with state `σ`.  The state goes on after a fault. -/
abbrev Action (σ α : Type) := ExceptT Fault (StateM σ) α

/-- Runs an action: its result and the state after it. -/
def Action.perform {σ α : Type} (a : Action σ α) (s : σ) : Except Fault α × σ := a.run.run s

/-- Values of names, each name once. -/
abbrev Model := List (String × String)

namespace Model

/-- The model with a value for a name, in place of an earlier one. -/
def insert (m : Model) (name value : String) : Model :=
  if m.any (·.1 == name) then m.map fun e => if e.1 == name then (name, value) else e
  else m ++ [(name, value)]

/-- The names of a model in order. -/
def names (m : Model) : List String := (m.map Prod.fst).mergeSort (· ≤ ·)

/-- One entry of a model as text.  Entries for applications are remarks. -/
def renderEntry (name value : String) : String :=
  if name.startsWith "(" then "; " ++ name ++ " = " ++ value
  else "(define-fun " ++ name ++ " () Int " ++ value ++ ")"

/-- The text of a model, ordered by name. -/
def render (m : Model) : String :=
  "\n".intercalate (m.names.map fun name => renderEntry name ((m.lookup name).getD ""))

end Model

/-- The answer to a goal. -/
inductive Verdict
  /-- The facts and the goal hold in a model. -/
  | sat (model : Model)
  /-- They hold in none; the named facts of the core are enough for that. -/
  | unsat (core : List String)
  /-- No answer was found. -/
  | unknown (reason : String)
deriving Repr, DecidableEq

/-- The name of a verdict. -/
def Verdict.name : Verdict → String
  | .sat _ => "sat"
  | .unsat _ => "unsat"
  | .unknown _ => "unknown"

/-- What a solver session can do. -/
class Solver (σ : Type) where
  /-- Declares a symbol. -/
  declareConstant : String → Action σ Unit
  /-- Declares a function with a number of arguments. -/
  declareFunction : String → Nat → Action σ Unit
  /-- Adds a fact.  One with a name can appear in cores. -/
  assert : String → Formula Term → Action σ Unit
  /-- Decides the facts together with a goal.  The flag says that the caller has
  given up. -/
  check : Bool → Formula Term → Action σ Verdict
  /-- Ends the session. -/
  close : Action σ Unit

end ResourceSafety.Logic
