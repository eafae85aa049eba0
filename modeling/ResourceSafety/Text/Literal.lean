import ResourceSafety.Text.Quoted
import ResourceSafety.Word

/-!
# Number literals

A literal is a whole number in decimal, or with `0x`, `0o` and `0b` in another
base, or with a leading zero in octal.  Underscores may stand between digits and
after the letter of the base.

A literal is read from the left.  As soon as the digits read so far exceed the
range it is out of range, whatever follows them.
-/

namespace ResourceSafety.Text

/-- What is wrong with a literal. -/
inductive LiteralError
  | syntaxError
  | outOfRange
deriving Repr, DecidableEq

/-- The wording of an error. -/
def LiteralError.message : LiteralError → String
  | syntaxError => "invalid syntax"
  | outOfRange => "value out of range"

/-- The value of a letter or digit, up to base 36. -/
def letterValue? (c : Char) : Option Nat :=
  if '0' ≤ c && c ≤ '9' then some (c.toNat - 48)
  else if 'a' ≤ c && c ≤ 'z' then some (c.toNat - 87)
  else if 'A' ≤ c && c ≤ 'Z' then some (c.toNat - 55)
  else none

/-- The base of a literal, and its digits. -/
def literalBase : List Char → Nat × List Char
  | '0' :: b :: d :: cs =>
    if b == 'x' || b == 'X' then (16, d :: cs)
    else if b == 'o' || b == 'O' then (8, d :: cs)
    else if b == 'b' || b == 'B' then (2, d :: cs)
    else (8, b :: d :: cs)
  | '0' :: cs => (8, cs)
  | cs => (10, cs)

/-- Every underscore stands after a digit and before one.  `afterDigit` says that
a digit, or the letter of the base, stands in front. -/
def underscoresFit (afterDigit : Bool) : List Char → Bool
  | [] => true
  | '_' :: cs =>
    afterDigit && (match cs with
      | [] => false
      | c :: _ => c != '_') && underscoresFit false cs
  | _ :: cs => underscoresFit true cs

/-- The value of digits in a base, not above `most`. -/
def literalDigits (base most : Nat) (acc : Nat) : List Char → Except LiteralError Nat
  | [] => .ok acc
  | c :: cs =>
    if c == '_' then literalDigits base most acc cs
    else match (letterValue? c).filter (· < base) with
      | none => .error .syntaxError
      | some d =>
        if most < acc * base + d then .error .outOfRange
        else literalDigits base most (acc * base + d) cs

/-- An unsigned literal of at most so many bits. -/
def unsignedLiteral (bits : Nat) (cs : List Char) : Except LiteralError Nat := do
  if cs.isEmpty then throw .syntaxError
  let (base, digits) := literalBase cs
  let n ← literalDigits base (Word.countOf bits - 1) 0 digits
  if underscoresFit (digits.length < cs.length) digits then return n else throw .syntaxError

/-- A signed 64-bit literal. -/
def signedLiteral (cs : List Char) : Except LiteralError Int := do
  let (negative, digits) := match cs with
    | '-' :: ds => (true, ds)
    | '+' :: ds => (false, ds)
    | ds => (false, ds)
  let n ← unsignedLiteral 64 digits
  if negative then
    if n ≤ Word.half then return -(n : Int) else throw .outOfRange
  else if n < Word.half then return n else throw .outOfRange

end ResourceSafety.Text
