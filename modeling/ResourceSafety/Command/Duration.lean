import ResourceSafety.Text.Bytes
import ResourceSafety.Text.Decimal
import ResourceSafety.Text.Quoted

/-!
# Durations

A duration is written as decimals with units, such as `1m30s` or `200ms`, with
an optional sign.  A bare `0` needs no unit.  It is read as nanoseconds and must
fit into 64 bits.
-/

namespace ResourceSafety

/-- What is wrong with a duration. -/
inductive DurationError
  | invalid (text : String)
  | noUnit (text : String)
  | unknownUnit (unit text : String)
deriving Repr, DecidableEq

namespace DurationError

/-- A text between quotes.  What is not printable ASCII is written byte by byte. -/
def quoted (s : String) : String :=
  String.ofList <| '"' :: (s.toList.flatMap fun c =>
    if c.toNat < 0x20 || 0x80 ≤ c.toNat then
      (Text.Bytes.ofString (String.singleton c)).flatMap fun b =>
        '\\' :: 'x' :: Text.hexDigits 2 b.toNat
    else if c == '"' || c == '\\' then ['\\', c]
    else [c]) ++ ['"']

/-- The wording of an error. -/
def message : DurationError → String
  | invalid text => "time: invalid duration " ++ quoted text
  | noUnit text => "time: missing unit in duration " ++ quoted text
  | unknownUnit unit text => "time: unknown unit " ++ quoted unit ++ " in duration " ++ quoted text

end DurationError

namespace Duration

/-- The units in nanoseconds. -/
def units : List (String × Nat) :=
  [("ns", 1), ("us", 1000), ("µs", 1000), ("μs", 1000), ("ms", 1000000), ("s", 1000000000),
    ("m", 60000000000), ("h", 3600000000000)]

/-- A digit. -/
def isDigit (c : Char) : Bool := '0' ≤ c && c ≤ '9'

/-- The number that digits denote; no digits denote zero. -/
def value (cs : List Char) : Nat := (Text.natural? cs).getD 0

/-- The nanoseconds of the parts of a duration, after `sum`. -/
def sumFrom (text : String) : Nat → Nat → List Char → Except DurationError Nat
  | 0, sum, _ => .ok sum
  | _, sum, [] => .ok sum
  | fuel + 1, sum, cs => do
    let whole := cs.takeWhile isDigit
    let rest := cs.dropWhile isDigit
    let (fraction, rest) := match rest with
      | '.' :: rest => (rest.takeWhile isDigit, rest.dropWhile isDigit)
      | rest => ([], rest)
    if whole.isEmpty && fraction.isEmpty then throw (.invalid text)
    if Word.half < value whole then throw (.invalid text)
    let unit := rest.takeWhile fun c => !(c == '.' || isDigit c)
    if unit.isEmpty then throw (.noUnit text)
    match units.lookup (String.ofList unit) with
    | none => throw (.unknownUnit (String.ofList unit) text)
    | some n =>
      let part := value whole * n + value fraction * n / Nat.pow 10 fraction.length
      if Word.half < sum + part then throw (.invalid text)
      sumFrom text fuel (sum + part) (rest.drop unit.length)

/-- The nanoseconds that a text denotes. -/
def ofString (text : String) : Except DurationError Int := do
  let (negative, cs) := match text.toList with
    | '-' :: cs => (true, cs)
    | '+' :: cs => (false, cs)
    | cs => (false, cs)
  if cs == ['0'] then return 0
  if cs.isEmpty then throw (.invalid text)
  let n ← sumFrom text cs.length 0 cs
  if negative then return -(n : Int)
  else if n < Word.half then return n
  else throw (.invalid text)

end Duration

end ResourceSafety
