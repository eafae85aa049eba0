import ResourceSafety.Yaml.Flaw

/-!
# Cursors over a YAML text

A text is read through a *window*.  The window takes in runs of whole characters
of at most 512 bytes, and only when more characters are asked for than it holds.
Then it is moved, so that it begins at the place where reading stands.  A
character that no text may hold is met when its run is taken in, so one that
stands far behind the first document does no harm.

A cursor is a place in a text: what the window holds from there on, the runs that
follow, and the line and the column.  A reader is an action on cursors that may
meet a flaw.

A line ends with a line feed, a carriage return, both, the next-line character,
or one of the two separators of Unicode.  All but the last two count as one line
feed.

A byte order mark in front of the text is no part of it.
-/

namespace ResourceSafety.Yaml

/-! ## Characters -/

/-- A character that a text may hold: no control characters besides tab and line
ends. -/
def isAllowed (c : Char) : Bool :=
  let n := c.toNat
  n == 9 || n == 10 || n == 13 || (0x20 ≤ n && n ≤ 0x7E) || n == 0x85 ||
    (0xA0 ≤ n && n ≤ 0xFFFD) || 0x10000 ≤ n

/-- The end of a line. -/
def isBreak (c : Char) : Bool :=
  c == '\n' || c == '\r' || c.toNat == 0x85 || c.toNat == 0x2028 || c.toNat == 0x2029

/-- A space or a tab. -/
def isBlank (c : Char) : Bool := c == ' ' || c == '\t'

/-- The end of the text, the end of a line, or a blank. -/
def isBlankOrEnd : Option Char → Bool
  | none => true
  | some c => isBlank c || isBreak c

/-- A letter, a digit, a dash or an underscore: what the names of anchors are made
of. -/
def isNameChar (c : Char) : Bool := c.isAlphanum || c == '-' || c == '_'

/-- The mark that may stand in front of a text. -/
def byteOrderMark : Char := '\uFEFF'

/-- What the end of a line counts as. -/
def breakText (c : Char) : Char := if c.toNat == 0x2028 || c.toNat == 0x2029 then c else '\n'

/-! ## Places -/

/-- A place in a text. -/
structure Cursor where
  /-- The characters of the window from here on. -/
  rest : List Char := []
  /-- The number of places of the window from here on.  Places behind the end of
  the text count too. -/
  held : Nat := 0
  /-- The runs that the window has not taken in. -/
  later : List (List Char) := []
  /-- The character that the window begins with. -/
  front : Option Char := none
  /-- The line, counted from zero. -/
  line : Nat := 0
  /-- The column, counted from zero. -/
  column : Nat := 0
  /-- The number of characters read. -/
  index : Nat := 0
  /-- Nothing but blanks was read since the last line end. -/
  fresh : Bool := false
  /-- A bound on the steps of a loop that reads something at every step. -/
  bound : Nat := 0

namespace Cursor

/-- The number of bytes of a run. -/
def runSize : Nat := 512

/-- The runs with a character in front. -/
def push (c : Char) : List (List Char) → List (List Char)
  | [] => [[c]]
  | run :: runs => (c :: run) :: runs

/-- The runs of some characters, when the first has room for so many bytes. -/
def runs : Nat → List Char → List (List Char)
  | _, [] => []
  | room, c :: cs =>
    if c.utf8Size ≤ room then push c (runs (room - c.utf8Size) cs)
    else [] :: push c (runs (runSize - c.utf8Size) cs)

/-- The start of a text. -/
def ofString (text : String) : Cursor :=
  let cs := text.toList
  { later := if cs.head? == some byteOrderMark
      then runs (runSize - byteOrderMark.utf8Size) cs.tail else runs runSize cs
    bound := cs.length + 8 }

/-- The window with further runs, until it has `n` places or the text ends. -/
def fill (n : Nat) : List (List Char) → Cursor → Except Flaw Cursor
  | [], c => .ok { c with later := [], held := if n ≤ c.held then c.held else c.held + 1 }
  | run :: later, c =>
    if n ≤ c.held then .ok { c with later := run :: later }
    else if run.all isAllowed then
      fill n later { c with rest := c.rest ++ run, held := c.held + run.length }
    else .error ⟨.control, 0, 0⟩

/-- The cursor after its window was asked for `n` places. -/
def need (n : Nat) (c : Cursor) : Except Flaw Cursor :=
  if n ≤ c.held then .ok c
  else (fill n c.later c).map fun c => { c with front := c.rest.head? }

/-- The next character. -/
def peek (c : Cursor) : Option Char := c.rest.head?

/-- The character after so many others. -/
def peekAt (n : Nat) (c : Cursor) : Option Char := (c.rest.drop n).head?

/-- The place after the next character, which ends no line. -/
def step (c : Cursor) : Cursor :=
  { c with
    rest := c.rest.tail, held := c.held - 1, column := c.column + 1, index := c.index + 1
    fresh := c.fresh && (c.peek.map isBlank).getD false }

/-- The place after the end of a line of `n` characters. -/
def stepLine (n : Nat) (c : Cursor) : Cursor :=
  { c with
    rest := c.rest.drop n, held := c.held - n, line := c.line + 1, column := 0
    index := c.index + n, fresh := true }

/-- The number of characters of the line end at the cursor. -/
def breakSize (c : Cursor) : Nat :=
  match c.rest with
  | '\r' :: '\n' :: _ => 2
  | d :: _ => if isBreak d then 1 else 0
  | [] => 0

/-- Three characters that begin or end a document, at the start of a line. -/
def marks (c : Cursor) (mark : Char) : Bool :=
  c.column == 0 &&
    (match c.rest with
      | x :: y :: z :: rest => x == mark && y == mark && z == mark && isBlankOrEnd rest.head?
      | _ => false)

/-- The cursor stands at a document mark. -/
def atDocumentMark (c : Cursor) : Bool := c.marks '-' || c.marks '.'

end Cursor

/-! ## Readers -/

/-- An action on cursors that may meet a flaw. -/
abbrev Scan := StateT Cursor (Except Flaw)

namespace Scan

/-- Asks the window for `n` places. -/
def need (n : Nat) : Scan Unit := do set (← (← get).need n)

/-- The next character. -/
def peek : Scan (Option Char) := return (← get).peek

/-- The next character satisfies `p`. -/
def at? (p : Char → Bool) : Scan Bool := return ((← get).peek.map p).getD false

/-- Reads one character. -/
def skip : Scan Unit := modify Cursor.step

/-- Reads `n` characters. -/
def skipMany : Nat → Scan Unit
  | 0 => pure ()
  | n + 1 => do skip; skipMany n

/-- Reads the end of a line, and gives what it counts as. -/
def takeBreak : Scan (List Char) := do
  let c ← get
  match c.peek, c.breakSize with
  | some d, n + 1 =>
    set (c.stepLine (n + 1))
    return [breakText d]
  | _, _ => return []

/-- Reads the end of a line. -/
def skipBreak : Scan Unit := do
  need 2
  discard takeBreak

/-- A loop over characters that satisfy `p`. -/
def takeLoop (p : Char → Bool) : Nat → List Char → Scan (List Char)
  | 0, seen => return seen.reverse
  | fuel + 1, seen => do
    need 1
    match ← peek with
    | some d =>
      if p d then
        skip
        takeLoop p fuel (d :: seen)
      else return seen.reverse
    | none => return seen.reverse

/-- Reads all characters that satisfy `p`, none of which ends a line. -/
def takeWhile (p : Char → Bool) : Scan (List Char) := do takeLoop p (← get).bound []

/-- Passes over all characters that satisfy `p`. -/
def skipWhile (p : Char → Bool) : Scan Unit := discard (takeWhile p)

/-- Fails with a problem inside what begins on a line. -/
def fail {α : Type} (p : Problem) (start : Nat) : Scan α := do throw ⟨p, start, (← get).line⟩

/-! ## Comments -/

/-- The number of places that are searched for a comment. -/
def reach : Nat := 512

/-- The number of places before the next comment, when only blanks stand before
it, and where lines are passed over only they and the ends of lines.  The search
begins after `n` places.  It does not see past the end of a line that takes more
than one byte. -/
def commentAhead (lines : Bool) : Nat → Nat → Scan (Option Nat)
  | 0, _ => return none
  | fuel + 1, n =>
    if reach ≤ n then return none
    else do
      need (n + 1)
      match (← get).peekAt n with
      | none => return none
      | some d =>
        if d == '#' then return some n
        else if isBlank d || (lines && (d == '\n' || d == '\r')) then commentAhead lines fuel (n + 1)
        else return none

/-- Passes over lines and blanks up to the character with a number. -/
def passTo (target : Nat) : Nat → Scan Unit
  | 0 => return
  | fuel + 1 => do
    need 1
    let c ← get
    if target ≤ c.index then return
    else if c.breakSize = 0 then
      skip
      passTo target fuel
    else
      skipBreak
      passTo target fuel

/-- Passes over the rest of a line. -/
def skipLineRest : Scan Unit := skipWhile (!isBreak ·)

/-- Passes over the comment after a token on its line. -/
def skipLineComment : Scan Unit := do
  if !(← get).fresh then
    match ← commentAhead false (reach + 1) 0 with
    | some _ => skipLineRest
    | none => return

/-- A loop over comments, of which the next begins after at least `n` places. -/
def skipCommentsFrom : Nat → Nat → Scan Unit
  | 0, _ => return
  | fuel + 1, n => do
    match ← commentAhead true (reach + 1) n with
    | some k =>
      let c ← get
      passTo (c.index + k) c.bound
      skipLineRest
      -- The line end behind a comment is passed over when it is one byte.
      if ((← get).peek.map (·.utf8Size)).getD 1 == 1 then skipCommentsFrom fuel 1
    | none => return

/-- Passes over the comment that begins here and those that follow it. -/
def skipComments : Scan Unit := do skipCommentsFrom (← get).bound 0

end Scan

/-! ## Gaps -/

/-- What stands between two words of a scalar. -/
inductive Gap
  /-- Blanks on one line. -/
  | blanks (cs : List Char)
  /-- Line ends: the first one, unless it was escaped, and the further ones. -/
  | breaks (first : Option Char) (more : List Char)
deriving Repr

namespace Gap

/-- The text of a gap.  One line feed becomes a space, and of several the first
is dropped. -/
def text : Gap → List Char
  | blanks cs => cs
  | breaks (some '\n') [] => [' ']
  | breaks (some '\n') more => more
  | breaks first more => first.toList ++ more

/-- The gap reaches over the end of a line. -/
def isBroken : Gap → Bool
  | breaks _ _ => true
  | blanks _ => false

/-- The gap with one more blank.  Blanks behind a line end do not count. -/
def pushBlank (g : Gap) (c : Char) : Gap :=
  match g with
  | blanks cs => blanks (cs ++ [c])
  | breaks _ _ => g

/-- The gap with one more line end. -/
def pushBreak (g : Gap) (cs : List Char) : Gap :=
  match g with
  | blanks _ => breaks cs.head? []
  | breaks first more => breaks first (more ++ cs)

end Gap

end ResourceSafety.Yaml
