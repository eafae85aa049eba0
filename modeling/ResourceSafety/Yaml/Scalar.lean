import ResourceSafety.Yaml.Timestamp

/-!
# The values of plain scalars

A plain scalar may denote nothing, a truth value, a number or a moment.  Quoted
and block scalars are texts.

Underscores in a number are ignored, and they may stand anywhere unless it begins
with a point.
-/

namespace ResourceSafety.Yaml

/-- What a scalar denotes. -/
inductive Scalar
  | null
  | bool (value : Bool)
  | int (value : Int)
  /-- The whole part of a number that is not written as a whole number; nothing
  inside when it is no number at all. -/
  | real (whole : Option Int)
  /-- A date or a time. -/
  | moment
  | text (content : String)
deriving Repr, DecidableEq

namespace Scalar

/-- The name of the sort of a value. -/
def sort : Scalar → String
  | null => "!!null"
  | bool _ => "!!bool"
  | int _ => "!!int"
  | real _ => "!!float"
  | moment => "!!timestamp"
  | text _ => "!!str"

/-- The spellings of nothing. -/
def nullWords : List String := ["", "~", "null", "Null", "NULL"]

/-- A whole part that is larger than every number. -/
def beyond : Int := Number.doubleLimit

/-- The scalars that are looked up as they are. -/
def words : List (String × Scalar) :=
  nullWords.map (·, null) ++
  ["true", "True", "TRUE"].map (·, bool true) ++
  ["false", "False", "FALSE"].map (·, bool false) ++
  [".nan", ".NaN", ".NAN"].map (·, real none) ++
  [".inf", ".Inf", ".INF", "+.inf", "+.Inf", "+.INF"].map (·, real (some beyond)) ++
  ["-.inf", "-.Inf", "-.INF"].map (·, real (some (-beyond)))

/-- The number that a text denotes, if it denotes one. -/
def number? (cs : List Char) : Option Scalar :=
  match cs.head? with
  | some '.' => (Number.fraction? cs).map (real ∘ some)
  | some c =>
    if Number.isDigit c || c == '+' || c == '-' then
      let cs := cs.filter (· != '_')
      match Number.int? cs with
      | some n => some (int n)
      | none => (Number.real? cs).map (real ∘ some)
    else none
  | none => none

/-- What a plain text denotes.  Moments are only looked for when `dated`. -/
def resolve (dated : Bool) (content : String) : Scalar :=
  match words.lookup content with
  | some s => s
  | none =>
    if dated && isTimestamp content.toList then moment
    else (number? content.toList).getD (text content)

end Scalar

end ResourceSafety.Yaml
