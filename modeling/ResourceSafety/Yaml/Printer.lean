import ResourceSafety.Text.Quoted
import ResourceSafety.Yaml.Cursor
import ResourceSafety.Yaml.Scalar

/-!
# Writing scalars

A text that stands as a value in a block mapping is written in one of four ways.

* *Block*, when it has several lines and no blank at the end of one.
* *Double quoted*, when the plain text would denote something else, or when it
  has characters that must be escaped.
* *Single quoted*, when only its blanks, marks or first character are in the way.
* *Plain* otherwise.

Reading what was written gives the text back, but for an empty first line, which
is lost.
-/

namespace ResourceSafety.Yaml

open Number (isDigit)

/-! ## What a text would denote -/

/-- The words that once denoted truth values.  They are quoted for the sake of
older readers. -/
def oldBools : List String :=
  ["y", "Y", "yes", "Yes", "YES", "on", "On", "ON",
    "n", "N", "no", "No", "NO", "off", "Off", "OFF"]

/-- One to two digits below sixty, as a group of a number in base sixty. -/
def isSixtieth : List Char → Bool
  | [c] => isDigit c
  | [c, d] => '0' ≤ c && c ≤ '5' && isDigit d
  | _ => false

/-- A number in base sixty, such as `1:30`.  It is quoted for the sake of older
readers. -/
def isSexagesimal (cs : List Char) : Bool :=
  let cs := match cs with
    | c :: rest => if c == '+' || c == '-' then rest else cs
    | [] => []
  let whole := cs.takeWhile (· != '.')
  let fraction := (cs.drop whole.length).drop 1
  fraction.all (fun c => isDigit c || c == '_') &&
    match splitAt ':' whole with
    | first :: second :: rest =>
      (first.head?.map isDigit).getD false && first.all (fun c => isDigit c || c == '_') &&
        (second :: rest).all isSixtieth
    | _ => false

/-- The plain text denotes the text itself, for every reader. -/
def denotesItself (s : String) : Bool :=
  Scalar.resolve true s == .text s && !oldBools.contains s && !isSexagesimal s.toList

/-! ## What may stand where -/

/-- A character that can be written as itself. -/
def isWritable (c : Char) : Bool :=
  let n := c.toNat
  n == 0x0A || (0x20 ≤ n && n ≤ 0x7E) || (0xA0 ≤ n && n ≤ 0xFFFD && n != 0xFEFF)

/-- A character that no plain text may begin with. -/
def badStart (c : Char) (next : Option Char) : Bool :=
  "#,[]\x7b\x7d&*!|>'\"%@`".toList.contains c ||
    ((c == '?' || c == ':' || c == '-') && (next.map isBlank).getD true)

/-- A mark inside a plain text that would end it. -/
def badInside (before : Char) (c : Char) (next : Option Char) : Bool :=
  (c == ':' && (next.map isBlank).getD true) || (c == '#' && (isBlank before || isBreak before))

/-- The rest of a text holds a mark that would end a plain text. -/
def hasMark (before : Char) : List Char → Bool
  | [] => false
  | c :: cs => badInside before c cs.head? || hasMark c cs

/-- A text that looks like a document mark. -/
def looksLikeMark : List Char → Bool
  | a :: b :: c :: _ => a == b && b == c && (a == '-' || a == '.')
  | _ => false

/-- No mark stands in the way of a plain text. -/
def hasPlainMarks : List Char → Bool
  | [] => true
  | c :: cs => !badStart c cs.head? && !hasMark c cs && !looksLikeMark (c :: cs)

/-- Two neighbours satisfy `p` and `q`. -/
def hasNeighbours (p q : Char → Bool) : List Char → Bool
  | a :: b :: cs => (p a && q b) || hasNeighbours p q (b :: cs)
  | _ => false

/-- A space. -/
def isSpace (c : Char) : Bool := c == ' '

/-- The text may stand between single quotes. -/
def mayQuoteSingly (cs : List Char) : Bool :=
  cs.all isWritable && !hasNeighbours isBreak isSpace cs && !hasNeighbours isSpace isBreak cs

/-- The text may stand plain. -/
def mayStandPlain (cs : List Char) : Bool :=
  let edge := fun (c : Option Char) => (c.map isSpace).getD false
  mayQuoteSingly cs && hasPlainMarks cs && !cs.any isBreak && !edge cs.head? && !edge cs.getLast?

/-- The text may stand as a block. -/
def mayStandAsBlock (cs : List Char) : Bool :=
  cs.all (fun c => isWritable c || c == '\t') && !hasNeighbours isSpace isBreak cs &&
    cs.getLast? != some ' '

/-! ## Writing -/

/-- A hexadecimal number with capital letters. -/
def capitalHex (width n : Nat) : List Char := (Text.hexDigits width n).map Char.toUpper

/-- The letters after a backslash that stand for one character each. -/
def escapeLetter? (c : Char) : Option Char :=
  [(0x00, '0'), (0x07, 'a'), (0x08, 'b'), (0x09, 't'), (0x0A, 'n'), (0x0B, 'v'), (0x0C, 'f'),
    (0x0D, 'r'), (0x1B, 'e'), (0x22, '"'), (0x5C, '\\'), (0x85, 'N'), (0xA0, '_'), (0x2028, 'L'),
    (0x2029, 'P')].lookup c.toNat

/-- A character as an escape. -/
def escape (c : Char) : List Char :=
  match escapeLetter? c with
  | some letter => ['\\', letter]
  | none =>
    let n := c.toNat
    if n ≤ 0xFF then '\\' :: 'x' :: capitalHex 2 n
    else if n ≤ 0xFFFF then '\\' :: 'u' :: capitalHex 4 n
    else '\\' :: 'U' :: capitalHex 8 n

/-- One character between double quotes. -/
def doubleChar (c : Char) : List Char :=
  if isWritable c && !isBreak c && c != '"' && c != '\\' then [c] else escape c

/-- A text between double quotes.  After a byte order mark at the start all
characters are escaped. -/
def doubleQuoted (cs : List Char) : List Char :=
  let char := if cs.head? == some byteOrderMark then escape else doubleChar
  '"' :: cs.flatMap char ++ ['"']

/-- The text with four blanks in front of every line that is not empty.  `fresh`
tells whether the text begins at the start of a line. -/
def indentLines (fresh : Bool) : List Char → List Char
  | [] => []
  | c :: cs =>
    if isBreak c then c :: indentLines true cs
    else (if fresh then [' ', ' ', ' ', ' '] else []) ++ c :: indentLines false cs

/-- A text between single quotes.  A quote inside it is written twice. -/
def singleQuoted (cs : List Char) : List Char :=
  '\'' :: indentLines false (cs.flatMap fun c => if c == '\'' then [c, c] else [c]) ++ ['\'']

/-- The marks after the bar of a block: the indentation when the text begins with
a blank, and what becomes of the line ends after it. -/
def blockMarks (cs : List Char) : List Char :=
  (if (cs.head?.map fun c => isSpace c || isBreak c).getD false then ['4'] else []) ++
    match cs.reverse with
    | a :: b :: _ => if !isBreak a then ['-'] else if isBreak b then ['+'] else []
    | [a] => if isBreak a then ['+'] else ['-']
    | [] => ['-']

/-- The line end that is written behind a text which has none there. -/
def missingBreak (last : Option Char) : List Char :=
  if (last.map isBreak).getD false then [] else ['\n']

/-- A text as a block of indented lines.  Empty lines stay empty, and an empty
first line is lost: its end is taken for that of the marks. -/
def blockText (cs : List Char) : List Char :=
  '|' :: blockMarks cs ++ missingBreak cs.head? ++ indentLines true cs ++ missingBreak cs.getLast?

/-- A text as the value of a pair of a block mapping, up to the end of its last
line. -/
def valueLine (s : String) : String :=
  let cs := s.toList
  String.ofList <|
    if cs.contains '\n' && mayStandAsBlock cs then blockText cs
    else (if cs.contains '\n' || !denotesItself s then doubleQuoted cs
      else if mayStandPlain cs then cs
      else if mayQuoteSingly cs then singleQuoted cs
      else doubleQuoted cs) ++ ['\n']

end ResourceSafety.Yaml
