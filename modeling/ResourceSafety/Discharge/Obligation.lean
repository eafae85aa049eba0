import ResourceSafety.Logic.Formula
import ResourceSafety.Source.Span

/-!
# Proof obligations

An obligation is a side condition of the checked program: a value lies in a
range, or a tensor has a shape.  It is about a *subject*, a literal or a
symbolic handle.  Anything else can be written down but never proved.

`Condition.failure` is the formula that says a condition fails for a term.  An
obligation is proved by refuting it.
-/

namespace ResourceSafety

open Logic (Formula Term)

/-- What an obligation is about. -/
inductive Subject
  /-- A number. -/
  | literal (value : UInt64)
  /-- A symbolic integer of the session. -/
  | handle (symbol : String)
  /-- Any other expression. -/
  | expression (text : String)
  /-- No subject was given. -/
  | missing
deriving Repr, DecidableEq

namespace Subject

/-- The text of a subject. -/
def render : Subject → String
  | literal n => toString n
  | handle symbol => symbol
  | expression text => text
  | missing => "<nil>"

/-- The text of a subject inside a sentence. -/
def inSentence : Subject → String
  | missing => "%!s(<nil>)"
  | s => s.render

end Subject

/-- What is to hold. -/
inductive Condition
  /-- The subject lies between two bounds, both included. -/
  | range (lo hi : UInt64)
  /-- The subject is a tensor with these dimensions. -/
  | shape (dims : List UInt64)
deriving Repr, DecidableEq

/-- The function that holds the dimensions of tensors. -/
def shapeFunction : String := "tensor_dim"

/-- The dimension of a tensor at a place. -/
def dimensionOf (tensor : Term) (place : Nat) : Term :=
  .apply shapeFunction [tensor, .literal (UInt64.ofNat place)]

namespace Condition

/-- The name of the kind of a condition. -/
def kindName : Condition → String
  | range _ _ => "range"
  | shape _ => "shape"

/-- The formula that says the condition fails for a term. -/
def failure (t : Term) : Condition → Formula Term
  | range lo hi => .any [.compare .lt t (.literal lo), .compare .gt t (.literal hi)]
  | shape dims =>
    .any (dims.mapIdx fun i d => .compare .ne (dimensionOf t i) (.literal d))

end Condition

/-- A side condition at a place of the checked program. -/
structure Obligation where
  /-- What it is about. -/
  subject : Subject
  /-- What is to hold. -/
  condition : Condition
  /-- The place. -/
  span : Span
deriving Repr, DecidableEq

namespace Obligation

/-- The obligation in words. -/
def render (o : Obligation) : String :=
  match o.condition with
  | .range lo hi => o.subject.inSentence ++ s!" in [{lo}, {hi}]"
  | .shape dims =>
    "shape of " ++ o.subject.inSentence ++ " is [" ++
      ", ".intercalate (dims.map fun d => toString d) ++ "]"

end Obligation

/-- The result of an obligation. -/
inductive Outcome
  | proved
  | refuted
  /-- Never counted as proved. -/
  | undecided
deriving Repr, DecidableEq

/-- The name of a result. -/
def Outcome.name : Outcome → String
  | proved => "proved"
  | refuted => "refuted"
  | undecided => "unknown"

end ResourceSafety
