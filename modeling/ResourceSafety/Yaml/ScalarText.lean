import ResourceSafety.Yaml.Cursor

/-!
# The texts of scalars

A scalar is written in one of four ways.

* *Plain*: words up to a comment, to a colon before a blank, and inside flow
  collections to one of their marks.
* *Single quoted*: a quote is written twice.
* *Double quoted*: a backslash begins an escape.
* *Block*: the lines that follow `|` or `>`, without their indentation.

A plain or quoted scalar may run over several lines, which are folded: one line
end is a space, and of several the first is dropped.

The readers are given the line where the scalar starts, for the sake of flaws.
-/

namespace ResourceSafety.Yaml

open Scan

/-! ## Plain scalars -/

/-- A character that ends a plain scalar in front of it. -/
def endsPlain (inFlow : Bool) (c : Char) (next : Option Char) : Bool :=
  (c == ':' && isBlankOrEnd next) ||
    (inFlow && (c == ',' || c == '?' || c == '[' || c == ']' || c == '\x7b' || c == '\x7d'))

/-- The next word of a plain scalar, after the characters seen. -/
def plainWord (inFlow : Bool) : Nat → List Char → Scan (List Char)
  | 0, seen => return seen.reverse
  | fuel + 1, seen => do
    match (← get).rest with
    | d :: ds =>
      if isBlank d || isBreak d || endsPlain inFlow d ds.head? then return seen.reverse
      else
        skip
        need 2
        plainWord inFlow fuel (d :: seen)
    | [] => return seen.reverse

/-- The gap after a word of a plain scalar.  A tab may not stand where
indentation is expected. -/
def plainGap (start indent : Nat) : Nat → Gap → Scan Gap
  | 0, g => return g
  | fuel + 1, g => do
    need 1
    let c ← get
    match c.peek with
    | none => return g
    | some d =>
      if isBlank d then
        if g.isBroken && d == '\t' && c.column < indent then fail .plainTab start
        else
          skip
          plainGap start indent fuel (g.pushBlank d)
      else if isBreak d then
        need 2
        plainGap start indent fuel (g.pushBreak (← takeBreak))
      else return g

/-- The rest of a plain scalar: its text and the gap after it. -/
def plainFrom (inFlow : Bool) (start indent : Nat) :
    Nat → List Char → Gap → Scan (List Char × Gap)
  | 0, text, gap => return (text, gap)
  | fuel + 1, text, gap => do
    need 4
    let c ← get
    if c.atDocumentMark || c.peek == some '#' then return (text, gap)
    else
      let word ← plainWord inFlow c.bound []
      let (text, gap) :=
        if word.isEmpty then (text, gap) else (text ++ gap.text ++ word, .blanks [])
      if !(← at? fun d => isBlank d || isBreak d) then return (text, gap)
      else
        let gap ← plainGap start indent c.bound gap
        if !inFlow && (← get).column < indent then return (text, gap)
        else plainFrom inFlow start indent fuel text gap

/-- A plain scalar and the gap after it.  `indent` is the indentation around it,
counted from one. -/
def plainScalar (inFlow : Bool) (indent : Nat) : Scan (List Char × Gap) := do
  let c ← get
  plainFrom inFlow c.line indent c.bound [] (.blanks [])

/-! ## Quoted scalars -/

/-- The value of a hexadecimal digit. -/
def hexValue? (c : Char) : Option Nat :=
  if '0' ≤ c && c ≤ '9' then some (c.toNat - 48)
  else if 'a' ≤ c && c ≤ 'f' then some (c.toNat - 87)
  else if 'A' ≤ c && c ≤ 'F' then some (c.toNat - 55)
  else none

/-- The number that hexadecimal digits denote. -/
def hexNumber? (digits : List Char) : Option Nat :=
  digits.foldlM (fun n d => (hexValue? d).map (n * 16 + ·)) 0

/-- The character with the number that so many digits denote. -/
def codeChar (size : Nat) (digits : List Char) : Except Problem Char :=
  match hexNumber? digits with
  | some n =>
    if digits.length < size then .error .fewDigits
    else if (0xD800 ≤ n && n ≤ 0xDFFF) || 0x10FFFF < n then .error .noCharacter
    else .ok (Char.ofNat n)
  | none => .error .fewDigits

/-- The character that a letter after a backslash stands for. -/
def escaped? : Char → Option Char
  | '0' => some '\x00'
  | 'a' => some '\x07'
  | 'b' => some '\x08'
  | 't' => some '\t'
  | '\t' => some '\t'
  | 'n' => some '\n'
  | 'v' => some '\x0b'
  | 'f' => some '\x0c'
  | 'r' => some '\r'
  | 'e' => some '\x1b'
  | ' ' => some ' '
  | '"' => some '"'
  | '\'' => some '\''
  | '\\' => some '\\'
  | 'N' => some '\u0085'
  | '_' => some '\u00a0'
  | 'L' => some '\u2028'
  | 'P' => some '\u2029'
  | _ => none

/-- The number of digits after a letter that begins a numbered escape. -/
def escapeDigits : Char → Nat
  | 'x' => 2
  | 'u' => 4
  | 'U' => 8
  | _ => 0

/-- One escape, at its backslash. -/
def takeEscape (start : Nat) : Scan Char := do
  match (← get).peekAt 1 with
  | none => fail .unknownEscape start
  | some letter =>
    match escapeDigits letter, escaped? letter with
    | 0, some d =>
      skipMany 2
      return d
    | 0, none => fail .unknownEscape start
    | n, _ =>
      skipMany 2
      need n
      match codeChar n ((← get).rest.take n) with
      | .error p => fail p start
      | .ok d =>
        skipMany n
        return d

/-- The next word between quotes, after the characters seen, and the gap that it
opens: an escaped line end ends a word. -/
def quotedWord (quote : Char) (start : Nat) : Nat → List Char → Scan (List Char × Gap)
  | 0, seen => return (seen.reverse, .blanks [])
  | fuel + 1, seen => do
    match (← get).rest with
    | [] => return (seen.reverse, .blanks [])
    | d :: ds =>
      if isBlank d || isBreak d then return (seen.reverse, .blanks [])
      else if quote == '\'' && d == '\'' && ds.head? == some '\'' then
        skipMany 2
        need 2
        quotedWord quote start fuel ('\'' :: seen)
      else if d == quote then return (seen.reverse, .blanks [])
      else if quote == '"' && d == '\\' then
        if (ds.head?.map isBreak).getD false then
          need 3
          skip
          discard takeBreak
          return (seen.reverse, .breaks none [])
        else
          let e ← takeEscape start
          need 2
          quotedWord quote start fuel (e :: seen)
      else
        skip
        need 2
        quotedWord quote start fuel (d :: seen)

/-- The gap after a word between quotes. -/
def quotedGap : Nat → Gap → Scan Gap
  | 0, g => return g
  | fuel + 1, g => do
    need 1
    match ← peek with
    | none => return g
    | some d =>
      if isBlank d then
        skip
        quotedGap fuel (g.pushBlank d)
      else if isBreak d then
        need 2
        quotedGap fuel (g.pushBreak (← takeBreak))
      else return g

/-- The rest of a quoted scalar up to its closing quote. -/
def quotedFrom (quote : Char) (start : Nat) : Nat → List Char → Scan (List Char)
  | 0, _ => fail .unclosed start
  | fuel + 1, text => do
    need 4
    let c ← get
    if c.atDocumentMark then fail .quotedMark start
    else if c.peek.isNone then fail .unclosed start
    else
      let (word, gap) ← quotedWord quote start c.bound []
      need 1
      if ← at? (· == quote) then
        skip
        return text ++ word
      else
        let gap ← quotedGap c.bound gap
        quotedFrom quote start fuel (text ++ word ++ gap.text)

/-- A quoted scalar, at its opening quote. -/
def quotedScalar (quote : Char) : Scan (List Char) := do
  let c ← get
  skip
  quotedFrom quote c.line c.bound []

/-! ## Block scalars -/

/-- What is kept of the line ends after a block scalar. -/
inductive Chomping
  /-- None. -/
  | strip
  /-- The first. -/
  | clip
  /-- All. -/
  | keep
deriving Repr, DecidableEq

/-- The mark that tells what is kept; the first line end when there is none. -/
def takeChomping : Scan (Option Chomping) := do
  need 1
  match ← peek with
  | some '+' =>
    skip
    return some .keep
  | some '-' =>
    skip
    return some .strip
  | _ => return none

/-- The digit that tells the indentation; zero when there is none. -/
def takeIncrement (start : Nat) : Scan Nat := do
  need 1
  match ← peek with
  | some '0' => fail .zeroIndentation start
  | some d =>
    if '1' ≤ d && d ≤ '9' then
      skip
      return d.toNat - 48
    else return 0
  | none => return 0

/-- The marks of a block scalar, in either order. -/
def takeBlockMarks (start : Nat) : Scan (Chomping × Nat) := do
  match ← takeChomping with
  | some k => return (k, ← takeIncrement start)
  | none =>
    let n ← takeIncrement start
    if n = 0 then return (.clip, 0) else return ((← takeChomping).getD .clip, n)

/-- The rest of a line that may hold only a comment, and its end. -/
def endLine (start : Nat) : Scan Unit := do
  skipWhile isBlank
  if ← at? (· == '#') then skipLineRest
  match ← peek with
  | none => return
  | some d => if isBreak d then skipBreak else fail .lineRest start

/-- The indentation of a line, at most up to a column when it is known. -/
def skipIndent (limit : Nat) : Nat → Scan Unit
  | 0 => return
  | fuel + 1 => do
    need 1
    let c ← get
    if c.peek == some ' ' && (limit == 0 || c.column < limit) then
      skip
      skipIndent limit fuel

/-- The empty lines before the next line of a block scalar: the largest
indentation seen and the line ends. -/
def blockBreaks (start limit : Nat) : Nat → Nat → List Char → Scan (Nat × List Char)
  | 0, most, breaks => return (most, breaks)
  | fuel + 1, most, breaks => do
    skipIndent limit (← get).bound
    let c ← get
    let most := max most c.column
    if c.peek == some '\t' && (limit == 0 || c.column < limit) then fail .blockTab start
    else if c.breakSize = 0 then return (most, breaks)
    else
      need 2
      blockBreaks start limit fuel most (breaks ++ (← takeBreak))

/-- The lines of a block scalar read so far. -/
structure BlockLines where
  /-- The text without the last line end. -/
  text : List Char := []
  /-- The last line end. -/
  last : List Char := []
  /-- The line ends of the empty lines after it. -/
  empty : List Char := []
  /-- The last line began with a blank. -/
  blank : Bool := false

/-- What stands between the lines so far and the next one. -/
def BlockLines.joint (b : BlockLines) (folded startsBlank : Bool) : List Char :=
  if folded && !b.blank && !startsBlank && b.last == ['\n'] then
    (if b.empty.isEmpty then [' '] else []) ++ b.empty
  else b.last ++ b.empty

/-- The lines of a block scalar at the given indentation. -/
def blockLines (folded : Bool) (start indent : Nat) : Nat → BlockLines → Scan BlockLines
  | 0, b => return b
  | fuel + 1, b => do
    let c ← get
    if c.column != indent || c.peek.isNone then return b
    else
      let startsBlank ← at? isBlank
      let line ← takeWhile (!isBreak ·)
      need 2
      let last ← takeBreak
      let (_, empty) ← blockBreaks start indent c.bound 0 []
      blockLines folded start indent fuel
        { text := b.text ++ b.joint folded startsBlank ++ line, last, empty, blank := startsBlank }

/-- A block scalar, at its first mark.  `outer` is the indentation around it,
counted from one. -/
def blockScalar (folded : Bool) (outer : Nat) : Scan (List Char) := do
  let c ← get
  let start := c.line
  skip
  let (chomping, increment) ← takeBlockMarks start
  endLine start
  let limit := if increment = 0 then 0 else (outer - 1) + increment
  let (most, empty) ← blockBreaks start limit c.bound 0 []
  let indent := if limit = 0 then max most (max outer 1) else limit
  need 1
  let b ← blockLines folded start indent c.bound { empty }
  let tail := match chomping with
    | .strip => []
    | .clip => b.last
    | .keep => b.last ++ b.empty
  return b.text ++ tail

end ResourceSafety.Yaml
