import ResourceSafety.Json.Value

/-!
# Reading JSON

The reader takes the first value off a text and ignores what follows it.  The
grammar is the strict one: no comments, no trailing commas, no blanks other
than space, tab and line ends, no control characters inside strings.

A character may be written by its number in two halves, a high and a low
surrogate.  A half without its partner reads as the replacement character.

Values nest at most ten thousand deep.
-/

namespace ResourceSafety.JsonValue

/-! ## Strings -/

/-- What a string is made of: a character, or a 16-bit unit given by number. -/
inductive StringPiece
  | char (c : Char)
  | unit (n : Nat)
deriving Repr, DecidableEq

/-- The value of a hexadecimal digit. -/
def hexValue? (c : Char) : Option Nat :=
  if '0' ≤ c && c ≤ '9' then some (c.toNat - 48)
  else if 'a' ≤ c && c ≤ 'f' then some (c.toNat - 87)
  else if 'A' ≤ c && c ≤ 'F' then some (c.toNat - 55)
  else none

/-- The unit that four hexadecimal digits denote. -/
def unit? (a b c d : Char) : Option Nat := do
  let a ← hexValue? a
  let b ← hexValue? b
  let c ← hexValue? c
  let d ← hexValue? d
  return a * 4096 + b * 256 + c * 16 + d

/-- The character that a letter after a backslash denotes. -/
def escaped? : Char → Option Char
  | '"' => some '"'
  | '\\' => some '\\'
  | '/' => some '/'
  | 'b' => some '\x08'
  | 'f' => some '\x0c'
  | 'n' => some '\n'
  | 'r' => some '\r'
  | 't' => some '\t'
  | _ => none

/-- The pieces up to the closing quote, and what follows it. -/
def readPieces : List Char → Option (List StringPiece × List Char)
  | [] => none
  | '"' :: rest => some ([], rest)
  | '\\' :: 'u' :: a :: b :: c :: d :: rest =>
    match unit? a b c d, readPieces rest with
    | some n, some (ps, rest) => some (.unit n :: ps, rest)
    | _, _ => none
  | '\\' :: c :: rest =>
    match escaped? c, readPieces rest with
    | some c, some (ps, rest) => some (.char c :: ps, rest)
    | _, _ => none
  | c :: rest =>
    if c.toNat < 0x20 then none
    else (readPieces rest).map fun (ps, rest) => (.char c :: ps, rest)

/-- A high surrogate. -/
def isHigh (n : Nat) : Bool := 0xD800 ≤ n && n < 0xDC00

/-- A low surrogate. -/
def isLow (n : Nat) : Bool := 0xDC00 ≤ n && n < 0xE000

/-- The character of a unit on its own. -/
def unitChar (n : Nat) : Char := if isHigh n || isLow n then '\uFFFD' else Char.ofNat n

/-- The characters that pieces denote. -/
def joinPieces : List StringPiece → List Char
  | [] => []
  | .char c :: ps => c :: joinPieces ps
  | .unit h :: .unit l :: ps =>
    if isHigh h && isLow l then
      Char.ofNat (0x10000 + (h - 0xD800) * 0x400 + (l - 0xDC00)) :: joinPieces ps
    else unitChar h :: joinPieces (.unit l :: ps)
  | .unit n :: ps => unitChar n :: joinPieces ps

/-- The string after an opening quote. -/
def readString (cs : List Char) : Option (String × List Char) :=
  (readPieces cs).map fun (ps, rest) => (String.ofList (joinPieces ps), rest)

/-! ## Numbers -/

/-- An ASCII digit. -/
def isDigit (c : Char) : Bool := '0' ≤ c && c ≤ '9'

/-- At least one digit. -/
def readDigits (cs : List Char) : Option (List Char × List Char) :=
  let ds := cs.takeWhile isDigit
  if ds.isEmpty then none else some (ds, cs.dropWhile isDigit)

/-- The part before a decimal point: no zero leads other digits. -/
def readWhole : List Char → Option (List Char × List Char)
  | '0' :: rest => some (['0'], rest)
  | cs => readDigits cs

/-- The part after a decimal point, if there is one. -/
def readFraction : List Char → Option (List Char × List Char)
  | '.' :: rest => (readDigits rest).map fun (ds, rest) => ('.' :: ds, rest)
  | cs => some ([], cs)

/-- The sign of an exponent, if there is one. -/
def readSign : List Char → List Char × List Char
  | '+' :: rest => (['+'], rest)
  | '-' :: rest => (['-'], rest)
  | cs => ([], cs)

/-- The exponent, if there is one. -/
def readExponent : List Char → Option (List Char × List Char)
  | c :: rest =>
    if c == 'e' || c == 'E' then
      let (sign, rest) := readSign rest
      (readDigits rest).map fun (ds, rest) => (c :: sign ++ ds, rest)
    else some ([], c :: rest)
  | [] => some ([], [])

/-- A number, as it is written. -/
def readNumber (cs : List Char) : Option (JsonValue × List Char) := do
  let (minus, cs) := match cs with
    | '-' :: rest => (['-'], rest)
    | cs => ([], cs)
  let (whole, cs) ← readWhole cs
  let (fraction, cs) ← readFraction cs
  let (exponent, cs) ← readExponent cs
  return (number (String.ofList (minus ++ whole ++ fraction ++ exponent)), cs)

/-! ## Values -/

/-- A blank between tokens. -/
def isSpace (c : Char) : Bool := c == ' ' || c == '\t' || c == '\r' || c == '\n'

/-- The characters after leading blanks. -/
def skip (cs : List Char) : List Char := cs.dropWhile isSpace

mutual

/-- The first value of the characters and what follows it.  At most `room`
lists and objects may be open. -/
def readValue : (fuel room : Nat) → List Char → Option (JsonValue × List Char)
  | 0, _, _ => none
  | fuel + 1, room, cs =>
    match skip cs with
    | 'n' :: 'u' :: 'l' :: 'l' :: rest => some (null, rest)
    | 't' :: 'r' :: 'u' :: 'e' :: rest => some (bool true, rest)
    | 'f' :: 'a' :: 'l' :: 's' :: 'e' :: rest => some (bool false, rest)
    | '"' :: rest => (readString rest).map fun (s, rest) => (string s, rest)
    | '[' :: rest =>
      match room with
      | 0 => none
      | room + 1 =>
        match skip rest with
        | ']' :: rest => some (list [], rest)
        | rest => (readItems fuel room rest).map fun (vs, rest) => (list vs, rest)
    | '\x7b' :: rest =>
      match room with
      | 0 => none
      | room + 1 =>
        match skip rest with
        | '\x7d' :: rest => some (object [], rest)
        | rest => (readFields fuel room rest).map fun (fs, rest) => (object fs, rest)
    | cs => readNumber cs

/-- The items of a list up to its end. -/
def readItems : (fuel room : Nat) → List Char → Option (List JsonValue × List Char)
  | 0, _, _ => none
  | fuel + 1, room, cs => do
    let (v, rest) ← readValue fuel room cs
    match skip rest with
    | ',' :: rest =>
      let (vs, rest) ← readItems fuel room rest
      some (v :: vs, rest)
    | ']' :: rest => some ([v], rest)
    | _ => none

/-- The fields of an object up to its end. -/
def readFields : (fuel room : Nat) → List Char → Option (List (String × JsonValue) × List Char)
  | 0, _, _ => none
  | fuel + 1, room, cs => do
    match skip cs with
    | '"' :: rest =>
      let (k, rest) ← readString rest
      match skip rest with
      | ':' :: rest =>
        let (v, rest) ← readValue fuel room rest
        match skip rest with
        | ',' :: rest =>
          let (fs, rest) ← readFields fuel room rest
          some ((k, v) :: fs, rest)
        | '\x7d' :: rest => some ([(k, v)], rest)
        | _ => none
      | _ => none
    | _ => none

end

/-- How deep values nest. -/
def depthLimit : Nat := 10000

/-- The first value of a text.  Two calls at most are made per character. -/
def ofString? (s : String) : Option JsonValue :=
  (readValue (2 * s.length + 2) depthLimit s.toList).map Prod.fst

/-! ## Looking up fields -/

/-- A character with its case ignored.  Two characters beyond ASCII fold to
letters of ASCII. -/
def foldChar (c : Char) : Char :=
  if c == 'ſ' then 's' else if c.toNat == 0x212A then 'k' else c.toLower

/-- Two field names agree up to case. -/
def sameName (a b : String) : Bool := a.toList.map foldChar == b.toList.map foldChar

end ResourceSafety.JsonValue
