import ResourceSafety.Word

/-!
# Numbers in YAML

A whole number is written in decimal, or with `0x`, `0o` and `0b` in another
base, or with a leading zero in octal.  A sign stands in front, or behind `0o`
and `0b`.

Any other number is a double-precision one: the double nearest to the decimal.
Here only its whole part counts.
-/

namespace ResourceSafety.Yaml.Number

/-- A decimal digit. -/
def isDigit (c : Char) : Bool := '0' ≤ c && c ≤ '9'

/-! ## Whole numbers -/

/-- The value of a digit in some base. -/
def digitValue? (base : Nat) (c : Char) : Option Nat :=
  let v := if isDigit c then some (c.toNat - 48)
    else if 'a' ≤ c && c ≤ 'z' then some (c.toNat - 87)
    else if 'A' ≤ c && c ≤ 'Z' then some (c.toNat - 55)
    else none
  v.filter (· < base)

/-- The number that digits denote in a base; there must be some. -/
def natural? (base : Nat) (cs : List Char) : Option Nat :=
  if cs.isEmpty then none
  else cs.foldlM (fun n c => (digitValue? base c).map (n * base + ·)) 0

/-- The number that digits denote, with the base in front. -/
def based? : List Char → Option Nat
  | '0' :: b :: cs =>
    if b == 'x' || b == 'X' then natural? 16 cs
    else if b == 'o' || b == 'O' then natural? 8 cs
    else if b == 'b' || b == 'B' then natural? 2 cs
    else natural? 8 (b :: cs)
  | cs => natural? 10 cs

/-- A number with a minus sign in front that fits into 64 bits. -/
def negative? (n : Option Nat) : Option Int :=
  (n.filter (· ≤ Word.half)).map fun n => -(n : Int)

/-- A number with a plus sign in front that fits into 64 bits. -/
def positive? (n : Option Nat) : Option Int := (n.filter (· < Word.half)).map Int.ofNat

/-- A number whose sign stands behind the base. -/
def signedDigits? (base : Nat) : List Char → Option Int
  | '-' :: cs => negative? (natural? base cs)
  | '+' :: cs => positive? (natural? base cs)
  | _ => none

/-- A signed whole number that fits into 64 bits, or one without a sign that does
so without a sign bit. -/
def int? : List Char → Option Int
  | '-' :: cs => negative? (based? cs)
  | '+' :: cs => positive? (based? cs)
  | '0' :: 'b' :: '-' :: cs => signedDigits? 2 ('-' :: cs)
  | '0' :: 'b' :: '+' :: cs => signedDigits? 2 ('+' :: cs)
  | '0' :: 'o' :: '-' :: cs => signedDigits? 8 ('-' :: cs)
  | '0' :: 'o' :: '+' :: cs => signedDigits? 8 ('+' :: cs)
  | cs => ((based? cs).filter (· < Word.count)).map Int.ofNat

/-! ## Doubles -/

/-- A decimal: digits and a power of ten. -/
structure Decimal where
  /-- The digits as a number. -/
  digits : Nat
  /-- The power of ten. -/
  exponent : Int
deriving Repr, DecidableEq

/-- Digits, possibly none, and what follows them. -/
def spanDigits (cs : List Char) : List Char × List Char := (cs.takeWhile isDigit, cs.dropWhile isDigit)

/-- The exponent at the end of a decimal; zero when there is none. -/
def exponent? : List Char → Option Int
  | [] => some 0
  | e :: cs =>
    if e != 'e' && e != 'E' then none
    else match cs with
      | '-' :: cs => (natural? 10 cs).map fun n => -(n : Int)
      | '+' :: cs => (natural? 10 cs).map fun n => (n : Int)
      | cs => (natural? 10 cs).map fun n => (n : Int)

/-- An unsigned decimal with a digit before the point, or with a point and a
digit after it. -/
def decimal? (cs : List Char) : Option Decimal := do
  let (whole, rest) := spanDigits cs
  let (fraction, rest) := match rest with
    | '.' :: rest => spanDigits rest
    | rest => ([], rest)
  if whole.isEmpty && fraction.isEmpty then none
  let e ← exponent? rest
  let digits ← natural? 10 (whole ++ fraction)
  return { digits, exponent := e - fraction.length }

/-- The quotient to the nearest whole number, a half to the even one. -/
def divideNearest (a b : Nat) : Nat :=
  let q := a / b
  let r := 2 * (a % b)
  if r < b then q else if b < r then q + 1 else q + q % 2

/-- The whole part of the double nearest to a fraction.  A double has 53 binary
digits, so larger quotients are rounded to a multiple of a power of two. -/
def nearestWhole (a b : Nat) : Nat :=
  let q := a / b
  let size := q.log2 + 1
  if q = 0 then divideNearest (a <<< 54) b >>> 54
  else if size ≤ 53 then divideNearest (a <<< (53 - size)) b >>> (53 - size)
  else divideNearest a (b <<< (size - 53)) <<< (size - 53)

/-- A number that is larger than every double. -/
def doubleLimit : Nat := 1 <<< 1024

/-- The whole part of the double nearest to a decimal; nothing when it is too
large for a double. -/
def Decimal.whole? (d : Decimal) : Option Nat :=
  if d.digits = 0 then some 0
  else
    let magnitude : Int := d.exponent + (Nat.toDigits 10 d.digits).length
    if 310 < magnitude then none
    else if magnitude < -1 then some 0
    else
      let n := if 0 ≤ d.exponent then d.digits * Nat.pow 10 d.exponent.toNat
        else d.digits
      let b := if 0 ≤ d.exponent then 1 else Nat.pow 10 (-d.exponent).toNat
      let w := nearestWhole n b
      if w < doubleLimit then some w else none

/-- The whole part of a signed decimal. -/
def real? (cs : List Char) : Option Int :=
  match cs with
  | '-' :: cs => do
    let w ← (← decimal? cs).whole?
    return -(w : Int)
  | '+' :: cs => do
    let w ← (← decimal? cs).whole?
    return (w : Int)
  | cs => do
    let w ← (← decimal? cs).whole?
    return (w : Int)

/-- Every underscore stands between two digits. -/
def dividesDigits : List Char → Bool
  | [] => true
  | '_' :: _ => false
  | c :: '_' :: d :: cs => isDigit c && isDigit d && dividesDigits (d :: cs)
  | [_, '_'] => false
  | _ :: cs => dividesDigits cs

/-- The whole part of a decimal that begins with its point.  Underscores may
divide its digits. -/
def fraction? (cs : List Char) : Option Int :=
  if dividesDigits cs then real? (cs.filter (· != '_')) else none

/-- The whole part of the double nearest to a whole number. -/
def roundedWhole (n : Int) : Int :=
  if n < 0 then -(nearestWhole n.natAbs 1 : Int) else nearestWhole n.natAbs 1

end ResourceSafety.Yaml.Number
