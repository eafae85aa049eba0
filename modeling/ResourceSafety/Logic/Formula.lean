/-!
# Formulas

Proof obligations speak about unsigned 64-bit integers.  A term is a literal, a
symbol, or a function applied to terms.  Functions have no meaning of their
own.  A formula compares terms and joins comparisons by *and*, *or* and *not*.

Formulas are generic in what they compare.  The programs build formulas over
terms.

An *interpretation* gives each symbol a value and each function a table.
`Formula.eval` says what a formula is worth once its terms have values.  It is
the meaning that every decision is measured against.
-/

namespace ResourceSafety.Logic

/-- An integer expression. -/
inductive Term
  /-- A number. -/
  | literal (value : UInt64)
  /-- A symbol. -/
  | symbol (name : String)
  /-- A function applied to terms. -/
  | apply (function : String) (args : List Term)
deriving Repr, Inhabited

/-- A comparison of two integers. -/
inductive Comparison
  | eq
  | ne
  | lt
  | le
  | gt
  | ge
  /-- A number that names no comparison. -/
  | other (number : Nat)
deriving Repr, DecidableEq

namespace Comparison

/-- The name of a comparison in solver text. -/
def name : Comparison → String
  | eq => "="
  | ne => "distinct"
  | lt => "<"
  | le => "<="
  | gt => ">"
  | ge => ">="
  | other n => s!"comparison{n}"

/-- The comparison holds between two values. -/
def holds : Comparison → Nat → Nat → Bool
  | eq, a, b => a == b
  | ne, a, b => a != b
  | lt, a, b => a < b
  | le, a, b => a ≤ b
  | gt, a, b => b < a
  | ge, a, b => b ≤ a
  | other _, _, _ => false

end Comparison

/-- A condition on things of type `α`. -/
inductive Formula (α : Type)
  /-- Two things compared. -/
  | compare (op : Comparison) (left right : α)
  /-- All of the conditions hold. -/
  | all (fs : List (Formula α))
  /-- Some of the conditions holds. -/
  | any (fs : List (Formula α))
  /-- The condition fails. -/
  | not (f : Formula α)
  /-- A constant condition. -/
  | truth (value : Bool)
deriving Repr, Inhabited

/-! ## Meaning -/

namespace Formula

variable {α β : Type}

mutual

/-- The worth of a formula when things have the values `v`. -/
def eval (v : α → Nat) : Formula α → Bool
  | compare op l r => op.holds (v l) (v r)
  | all fs => evalAll v fs
  | any fs => evalAny v fs
  | not f => !eval v f
  | truth b => b

/-- All of the formulas hold. -/
def evalAll (v : α → Nat) : List (Formula α) → Bool
  | [] => true
  | f :: fs => eval v f && evalAll v fs

/-- Some of the formulas holds. -/
def evalAny (v : α → Nat) : List (Formula α) → Bool
  | [] => false
  | f :: fs => eval v f || evalAny v fs

end

mutual

/-- The formula with everything it compares replaced. -/
def map (g : α → β) : Formula α → Formula β
  | compare op l r => compare op (g l) (g r)
  | all fs => all (mapList g fs)
  | any fs => any (mapList g fs)
  | not f => not (map g f)
  | truth b => truth b

/-- The formulas with everything they compare replaced. -/
def mapList (g : α → β) : List (Formula α) → List (Formula β)
  | [] => []
  | f :: fs => map g f :: mapList g fs

end

mutual

/-- What a formula compares, from left to right. -/
def leaves : Formula α → List α
  | compare _ l r => [l, r]
  | all fs => leavesList fs
  | any fs => leavesList fs
  | not f => leaves f
  | truth _ => []

/-- What the formulas compare. -/
def leavesList : List (Formula α) → List α
  | [] => []
  | f :: fs => leaves f ++ leavesList fs

end

end Formula

/-- Values of the symbols and tables of the functions. -/
structure Interpretation where
  /-- The value of a symbol. -/
  symbol : String → UInt64
  /-- The value of a function at arguments. -/
  function : String → List UInt64 → UInt64

mutual

/-- The value of a term. -/
def Term.value (i : Interpretation) : Term → UInt64
  | .literal n => n
  | .symbol name => i.symbol name
  | .apply f args => i.function f (valueList i args)

/-- The values of terms. -/
def Term.valueList (i : Interpretation) : List Term → List UInt64
  | [] => []
  | t :: ts => Term.value i t :: Term.valueList i ts

end

/-- The interpretation makes the formula true. -/
def Formula.holdsIn (f : Formula Term) (i : Interpretation) : Bool :=
  f.eval fun t => (t.value i).toNat

/-! ## Solver text -/

mutual

/-- The text of a term.  A function without arguments is written without
parentheses. -/
def Term.render : Term → String
  | .literal n => toString n
  | .symbol name => name
  | .apply f [] => f
  | .apply f (t :: ts) => "(" ++ f ++ Term.renderArgs (t :: ts) ++ ")"

/-- The texts of the arguments, a space before each. -/
def Term.renderArgs : List Term → String
  | [] => ""
  | t :: ts => " " ++ Term.render t ++ Term.renderArgs ts

end

mutual

/-- The text of a formula.  A junction of one formula is that formula, and a
junction of none is a constant. -/
def Formula.render : Formula Term → String
  | .compare op l r => "(" ++ op.name ++ " " ++ l.render ++ " " ++ r.render ++ ")"
  | .all [] => "true"
  | .all [f] => Formula.render f
  | .all (f :: fs) => "(and" ++ Formula.renderList (f :: fs) ++ ")"
  | .any [] => "false"
  | .any [f] => Formula.render f
  | .any (f :: fs) => "(or" ++ Formula.renderList (f :: fs) ++ ")"
  | .not f => "(not " ++ Formula.render f ++ ")"
  | .truth true => "true"
  | .truth false => "false"

/-- The texts of formulas, a space before each. -/
def Formula.renderList : List (Formula Term) → String
  | [] => ""
  | f :: fs => " " ++ Formula.render f ++ Formula.renderList fs

end

mutual

/-- The symbols of a term, from left to right. -/
def Term.symbols : Term → List String
  | .literal _ => []
  | .symbol name => [name]
  | .apply _ args => Term.symbolsList args

/-- The symbols of terms. -/
def Term.symbolsList : List Term → List String
  | [] => []
  | t :: ts => Term.symbols t ++ Term.symbolsList ts

end

/-- The distinct symbols of a formula, in the order of their first
occurrence. -/
def Formula.symbols (f : Formula Term) : List String := (f.leaves.flatMap Term.symbols).eraseDups

end ResourceSafety.Logic
