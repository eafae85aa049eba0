import ResourceSafety.Yaml.Property

/-!
# Tokens of a YAML text

The tokens make the structure of a text explicit: the beginnings and ends of
collections, the marks of entries, keys and values, and the scalars.  Block
collections have no brackets of their own, so their ends follow from the
indentation of later lines.

A key is recognised only when its colon is met.  So every token that could be a
key is remembered as a *candidate*, one for each open flow collection.  A
candidate must be on one line with its colon and at most 1024 characters before
it.  The key mark, and where needed the start of a block mapping, are put in
front of it afterwards.

Tokens are therefore held back.  One is handed out when two more are known, and
when it is not watched as a candidate that may still be a key.  An empty flow
collection is no longer watched once it is closed, so its start may be handed out
before its colon is met.  Then the key mark comes too late and stands behind it.

The tokens of a text that cannot be read end with `unreadable`.
-/

namespace ResourceSafety.Yaml

/-- A piece of the structure of a text. -/
inductive Mark
  | streamStart
  | streamEnd
  | directive (d : Directive)
  | documentStart
  | documentEnd
  | blockSequenceStart
  | blockMappingStart
  | blockEnd
  | flowSequenceStart
  | flowSequenceEnd
  | flowMappingStart
  | flowMappingEnd
  | blockEntry
  | flowEntry
  | key
  | value
  | anchor (name : String)
  | reference (name : String)
  | tag (text : TagText)
  /-- A scalar, and whether it is plain. -/
  | scalar (text : String) (plain : Bool)
  | unreadable (flaw : Flaw)
deriving Repr, DecidableEq

/-- A piece of the structure and the line it begins on, counted from zero. -/
structure Token where
  /-- The piece. -/
  mark : Mark
  /-- The line. -/
  line : Nat
deriving Repr, DecidableEq

/-- A token that may turn out to be a key. -/
structure Candidate where
  /-- It can still be a key. -/
  live : Bool := false
  /-- The number of tokens before it. -/
  number : Nat := 0
  /-- It stands where only a key may stand. -/
  required : Bool := false
  /-- Its line. -/
  line : Nat := 0
  /-- Its column. -/
  column : Nat := 0
  /-- The number of characters before it. -/
  index : Nat := 0
deriving Repr

/-- The state of reading tokens. -/
structure Layout where
  /-- The place in the text. -/
  cursor : Cursor
  /-- The tokens that are held back. -/
  queue : List Token := []
  /-- The number of tokens that were handed out. -/
  given : Nat := 0
  /-- The columns of the open block collections, counted from one, innermost
  first. -/
  columns : List Nat := []
  /-- A key may begin here. -/
  keyAllowed : Bool := true
  /-- The candidate in the innermost flow collection, or outside every one. -/
  candidate : Candidate := {}
  /-- The candidates around it, one for each open flow collection. -/
  outer : List Candidate := []
  /-- The tokens that are watched, with the number of flow collections around
  each. -/
  watched : List (Nat × Nat) := []

namespace Layout

/-- The column of the innermost block collection, counted from one; zero when
there is none. -/
def indent (l : Layout) : Nat := l.columns.head?.getD 0

/-- The number of open flow collections. -/
def level (l : Layout) : Nat := l.outer.length

/-- Inside a flow collection. -/
def inFlow (l : Layout) : Bool := !l.outer.isEmpty

/-- The line of the cursor. -/
def line (l : Layout) : Nat := l.cursor.line

/-- The column of the cursor. -/
def column (l : Layout) : Nat := l.cursor.column

/-- The number of the next token. -/
def count (l : Layout) : Nat := l.given + l.queue.length

/-- The state after a reader ran at the cursor. -/
def scan {α : Type} (l : Layout) (s : Scan α) : Except Flaw (α × Layout) :=
  (s.run l.cursor).map fun (a, c) => (a, { l with cursor := c })

/-- The state with one more token, which begins on the given line. -/
def emit (l : Layout) (m : Mark) (line : Nat) : Layout := { l with queue := l.queue ++ [⟨m, line⟩] }

/-- The state with a token for the next characters, which are read. -/
def take (l : Layout) (m : Mark) (n : Nat) : Except Flaw Layout :=
  (l.scan (Scan.skipMany n)).map fun (_, next) => next.emit m l.line

/-- The state with a token put in front of the token with a number, or behind all
others when that token was handed out. -/
def insertAt (l : Layout) (number : Nat) (t : Token) : Layout :=
  if number < l.given then { l with queue := l.queue ++ [t] }
  else
    let before := number - l.given
    { l with queue := l.queue.take before ++ t :: l.queue.drop before }

/-- The flaw of what begins on a line. -/
def flaw (l : Layout) (p : Problem) (start : Nat) : Flaw := ⟨p, start, l.line⟩

/-! ## Candidates -/

/-- The candidate at a level. -/
def candidateAt (l : Layout) (level : Nat) : Candidate :=
  ((l.candidate :: l.outer).reverse[level]?).getD {}

/-- The state with the candidate at a level changed. -/
def changeAt (l : Layout) (level : Nat) (f : Candidate → Candidate) : Layout :=
  if level = l.level then { l with candidate := f l.candidate }
  else { l with outer := l.outer.modify (l.level - 1 - level) f }

/-- Whether the candidate at a level can still be a key.  A required one must
be. -/
def check (l : Layout) (level : Nat) : Except Flaw (Bool × Layout) :=
  let k := l.candidateAt level
  if !k.live then .ok (false, l)
  else if k.line < l.line || k.index + 1024 < l.cursor.index then
    if k.required then .error (l.flaw .noColon k.line)
    else .ok (false, l.changeAt level ({ · with live := false }))
  else .ok (true, l)

/-- The state with a token no longer watched. -/
def unwatch (l : Layout) (number : Nat) : Layout :=
  { l with watched := l.watched.filter (·.1 != number) }

/-- Forgets the candidate.  A required one may not be forgotten. -/
def dropCandidate (l : Layout) : Except Flaw Layout :=
  if !l.candidate.live then .ok l
  else if l.candidate.required then .error (l.flaw .noColon l.candidate.line)
  else .ok { l.unwatch l.candidate.number with candidate := { l.candidate with live := false } }

/-- Remembers the next token as a candidate, where a key may begin. -/
def noteCandidate (l : Layout) : Except Flaw Layout :=
  if !l.keyAllowed then .ok l
  else do
    let l ← l.dropCandidate
    return { l with
      candidate :=
        { live := true, number := l.count, required := !l.inFlow && l.indent == l.column + 1
          line := l.line, column := l.column, index := l.cursor.index }
      watched := (l.count, l.level) :: l.watched }

/-! ## Collections -/

/-- The largest number of collections inside each other. -/
def depthLimit : Nat := 10000

/-- Opens a block collection when the column is deeper than the present one.
Its start goes in front of the token with the given number. -/
def openBlock (l : Layout) (column number : Nat) (t : Token) : Except Flaw Layout :=
  if !l.inFlow && l.indent < column + 1 then
    if depthLimit ≤ l.columns.length then .error (l.flaw .tooDeep l.candidate.line)
    else .ok { l.insertAt number t with columns := (column + 1) :: l.columns }
  else .ok l

/-- The number of block collections that are deeper than a column, counted from
one. -/
def deeper (column : Nat) (columns : List Nat) : Nat := (columns.takeWhile (column < ·)).length

/-- Closes the block collections that are deeper than a column, counted from
one.  Their ends are on the given line. -/
def closeBlocks (l : Layout) (column line : Nat) : Layout :=
  if l.inFlow then l
  else
    let n := deeper column l.columns
    { l with queue := l.queue ++ List.replicate n ⟨.blockEnd, line⟩, columns := l.columns.drop n }

/-! ## Moving to the next token -/

/-- Moves to the next token: blanks, comments and line ends are passed over.  A
tab may not stand where a key may begin.  At the start of a line one character is
passed over when the window begins with a byte order mark.  The result tells
whether a key may begin there. -/
def toToken (inFlow : Bool) : Nat → Bool → Scan Bool
  | 0, keyAllowed => return keyAllowed
  | fuel + 1, keyAllowed => do
    Scan.need 1
    let c ← get
    if c.column == 0 && c.front == some byteOrderMark then Scan.skip
    Scan.skipWhile fun d => d == ' ' || (d == '\t' && (inFlow || !keyAllowed))
    if ← Scan.at? (· == '#') then Scan.skipComments
    if ← Scan.at? isBreak then
      Scan.skipBreak
      toToken inFlow fuel (keyAllowed || !inFlow)
    else return keyAllowed

/-! ## Tokens -/

/-- The state without open block collections and without a candidate. -/
def settle (l : Layout) : Except Flaw Layout := do
  let l ← (l.closeBlocks 0 l.line).dropCandidate
  return { l with keyAllowed := false }

/-- The end of the text.  It stands at the start of a line. -/
def readEnd (l : Layout) : Except Flaw Layout := do
  let c := l.cursor
  let l := if c.column = 0 then l
    else { l with cursor := { c with line := c.line + 1, column := 0 } }
  let l ← l.settle
  return l.emit .streamEnd l.line

/-- A directive. -/
def readDirective (l : Layout) : Except Flaw Layout := do
  let l ← l.settle
  let (d, next) ← l.scan takeDirective
  return next.emit (.directive d) l.line

/-- A document mark. -/
def readDocumentMark (l : Layout) (m : Mark) : Except Flaw Layout := do (← l.settle).take m 3

/-- The beginning of a flow collection. -/
def readFlowStart (l : Layout) (m : Mark) : Except Flaw Layout := do
  let l ← l.noteCandidate
  let inner : Candidate := { number := l.count, line := l.line }
  let l := { l with candidate := inner, outer := l.candidate :: l.outer }
  if depthLimit < l.level then throw (l.flaw .tooDeep l.line)
  { l with keyAllowed := true }.take m 1

/-- The end of a flow collection. -/
def readFlowEnd (l : Layout) (m : Mark) : Except Flaw Layout := do
  let l ← l.dropCandidate
  let l := match l.outer with
    | k :: rest => { l.unwatch l.candidate.number with candidate := k, outer := rest }
    | [] => l
  { l with keyAllowed := false }.take m 1

/-- The comma of a flow collection. -/
def readFlowEntry (l : Layout) : Except Flaw Layout := do
  let l ← l.dropCandidate
  { l with keyAllowed := true }.take .flowEntry 1

/-- The dash of a block sequence. -/
def readBlockEntry (l : Layout) : Except Flaw Layout := do
  if !l.inFlow && !l.keyAllowed then throw (l.flaw .strayEntry l.line)
  let l ← l.openBlock l.column l.count ⟨.blockSequenceStart, l.line⟩
  let l ← l.dropCandidate
  { l with keyAllowed := true }.take .blockEntry 1

/-- The mark of a key. -/
def readKey (l : Layout) : Except Flaw Layout := do
  if !l.inFlow && !l.keyAllowed then throw (l.flaw .strayKey l.line)
  let l ← l.openBlock l.column l.count ⟨.blockMappingStart, l.line⟩
  let l ← l.dropCandidate
  { l with keyAllowed := !l.inFlow }.take .key 1

/-- The colon of a value. -/
def readValue (l : Layout) : Except Flaw Layout := do
  let (valid, l) ← l.check l.level
  if valid then
    let k := l.candidate
    let l ← (l.insertAt k.number ⟨.key, k.line⟩).openBlock k.column k.number
      ⟨.blockMappingStart, k.line⟩
    { l.unwatch k.number with candidate := { k with live := false }, keyAllowed := false }.take
      .value 1
  else
    if !l.inFlow && !l.keyAllowed then throw (l.flaw .strayValue l.line)
    let l ← l.openBlock l.column l.count ⟨.blockMappingStart, l.line⟩
    { l with keyAllowed := !l.inFlow }.take .value 1

/-- A token that a reader makes and that may be a key. -/
def readCandidate (l : Layout) (s : Scan Mark) : Except Flaw Layout := do
  let l ← l.noteCandidate
  let (m, next) ← { l with keyAllowed := false }.scan s
  return next.emit m l.line

/-- A plain scalar.  A key may begin after it when it ends with its line. -/
def readPlain (l : Layout) : Except Flaw Layout := do
  let l ← l.noteCandidate
  let ((text, gap), next) ← l.scan (plainScalar l.inFlow l.indent)
  return { next with keyAllowed := gap.isBroken }.emit (.scalar (String.ofList text) true) l.line

/-- A block scalar. -/
def readBlockScalar (l : Layout) (folded : Bool) : Except Flaw Layout := do
  let l ← l.dropCandidate
  let (text, next) ← { l with keyAllowed := true }.scan (blockScalar folded l.indent)
  return next.emit (.scalar (String.ofList text) false) l.line

/-- A character that may not begin a plain scalar. -/
def isIndicator (c : Char) : Bool :=
  "-?:,[]\x7b\x7d#&*!|>'\"%@`".toList.contains c

/-- A plain scalar may begin here.  A dash may begin one before anything but a
blank, and outside flow collections so may a question mark and a colon. -/
def plainBegins (inFlow : Bool) (c : Char) (next : Option Char) : Bool :=
  (!isIndicator c && !isBlankOrEnd (some c)) ||
    (c == '-' && !(next.map isBlank).getD false) ||
    (!inFlow && (c == '?' || c == ':') && !isBlankOrEnd next)

/-- The token that begins with a character, at the cursor. -/
def readToken (l : Layout) (c : Char) : Except Flaw Layout :=
  let next := l.cursor.peekAt 1
  if c == '[' then l.readFlowStart .flowSequenceStart
  else if c == '\x7b' then l.readFlowStart .flowMappingStart
  else if c == ']' then l.readFlowEnd .flowSequenceEnd
  else if c == '\x7d' then l.readFlowEnd .flowMappingEnd
  else if c == ',' then l.readFlowEntry
  else if c == '-' && isBlankOrEnd next then l.readBlockEntry
  else if c == '?' && (l.inFlow || isBlankOrEnd next) then l.readKey
  else if c == ':' && (l.inFlow || isBlankOrEnd next) then l.readValue
  else if c == '*' then l.readCandidate (.reference <$> takeName)
  else if c == '&' then l.readCandidate (.anchor <$> takeName)
  else if c == '!' then l.readCandidate (.tag <$> takeTag)
  else if c == '|' && !l.inFlow then l.readBlockScalar false
  else if c == '>' && !l.inFlow then l.readBlockScalar true
  else if c == '\'' || c == '"' then
    l.readCandidate ((fun text => .scalar (String.ofList text) false) <$> quotedScalar c)
  else if plainBegins l.inFlow c next then l.readPlain
  else .error (l.flaw .noToken l.line)

/-- The state after the comment on the line of the last token.  A dash has none:
a comment after it belongs to what follows. -/
def skipComment (l : Layout) : Except Flaw Layout :=
  if (l.queue.getLast?.map (·.mark)) == some .blockEntry then .ok l
  else (l.scan Scan.skipLineComment).map (·.2)

/-- The state with the next token, and with the marks that follow from it. -/
def fetch (l : Layout) : Except Flaw Layout := do
  let before := l.line
  let (keyAllowed, l) ← l.scan (toToken l.inFlow l.cursor.bound l.keyAllowed)
  let l := { l with keyAllowed }.closeBlocks (l.column + 1) before
  let (_, l) ← l.scan (Scan.need 4)
  match l.cursor.peek with
  | none => l.readEnd
  | some c =>
    if c == '%' && l.column == 0 then l.readDirective
    else if l.cursor.marks '-' then l.readDocumentMark .documentStart
    else if l.cursor.marks '.' then l.readDocumentMark .documentEnd
    else (← l.readToken c).skipComment

/-- The state when its first token may be handed out. -/
def prepare : Nat → Layout → Except Flaw Layout
  | 0, l => .ok l
  | fuel + 1, l =>
    if l.queue.length ≤ 2 then l.fetch >>= prepare fuel
    else match l.watched.lookup l.given with
      | none => .ok l
      | some level => do
        let (valid, l) ← l.check level
        if valid then l.fetch >>= prepare fuel else return l

/-- The tokens from here on. -/
def tokensFrom : Nat → Layout → List Token
  | 0, _ => []
  | fuel + 1, l =>
    match prepare l.cursor.bound l with
    | .error f => [⟨.unreadable f, f.line⟩]
    | .ok l =>
      match l.queue with
      | [] => []
      | t :: queue =>
        if t.mark == .streamEnd then [t]
        else t :: tokensFrom fuel { l with queue, given := l.given + 1 }

end Layout

/-- The tokens of a text. -/
def tokens (text : String) : List Token :=
  let cursor := Cursor.ofString text
  match cursor.need 1 with
  | .error f => [⟨.unreadable f, f.line⟩]
  | .ok cursor => Layout.tokensFrom (4 * cursor.bound) { cursor, queue := [⟨.streamStart, 0⟩] }

end ResourceSafety.Yaml
