import ResourceSafety.Word

/-!
# Decimal numerals

Readers for whole decimal numerals.  A numeral is one or more ASCII digits,
leading zeros included.  A signed numeral may start with one sign.  A value
outside its range is refused, never wrapped.
-/

namespace ResourceSafety.Text

/-- The value of an ASCII digit. -/
def digitValue? (c : Char) : Option Nat :=
  if '0' ≤ c && c ≤ '9' then some (c.toNat - 48) else none

/-- The value of digits read after `acc`, most significant first. -/
def digitsFrom (acc : Nat) : List Char → Option Nat
  | [] => some acc
  | c :: cs => do
    let d ← digitValue? c
    digitsFrom (10 * acc + d) cs

/-- The value of a non-empty list of digits. -/
def natural? : List Char → Option Nat
  | [] => none
  | cs => digitsFrom 0 cs

/-- An unsigned 64-bit numeral. -/
def unsigned? (cs : List Char) : Option UInt64 := do
  let n ← natural? cs
  if n < Word.count then some (UInt64.ofNat n) else none

/-- A signed numeral of any size. -/
def integer? : List Char → Option Int
  | '-' :: cs => (natural? cs).map fun n => -(n : Int)
  | '+' :: cs => (natural? cs).map Int.ofNat
  | cs => (natural? cs).map Int.ofNat

/-- A signed 64-bit numeral. -/
def signed? (cs : List Char) : Option Int64 := do
  let n ← integer? cs
  if Word.isSigned n then some (Int64.ofInt n) else none

end ResourceSafety.Text
