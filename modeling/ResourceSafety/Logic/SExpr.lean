import ResourceSafety.Fault
import ResourceSafety.Logic.Solver
import ResourceSafety.Text.Blank

/-!
# Symbolic expressions

The external solver answers in symbolic expressions: an atom, or a list of
expressions between parentheses.  A text between double quotes is one atom, and
may hold spaces, parentheses and line ends.

Three readers share this notation.

* `Response.next?` cuts one response off a stream of characters: an atom on a
  line of its own, or a list that may run over several lines.
* `SExpr.tokens` cuts a text into parentheses and atoms.
* `SExpr.ofTokens` builds expressions from tokens.
-/

namespace ResourceSafety.Logic

/-- An atom or a list. -/
inductive SExpr
  | atom (text : String)
  | list (items : List SExpr)
deriving Repr

namespace SExpr

mutual

/-- The text of an expression. -/
def render : SExpr → String
  | atom text => text
  | list items => "(" ++ renderItems items ++ ")"

/-- The texts of expressions, divided by spaces. -/
def renderItems : List SExpr → String
  | [] => ""
  | [e] => render e
  | e :: es => render e ++ " " ++ renderItems es

end

/-- The text of an atom; empty for a list. -/
def atomText : SExpr → String
  | atom text => text
  | list _ => ""

/-- The items of a list; none for an atom. -/
def items : SExpr → List SExpr
  | atom _ => []
  | list items => items

/-! ## Tokens -/

/-- A character that divides tokens. -/
def isSeparator (c : Char) : Bool := c == ' ' || c == '\n' || c == '\t' || c == '\r'

/-- The token gathered so far, when there is one. -/
def flush (gathered : List Char) : List String :=
  if gathered.isEmpty then [] else [String.ofList gathered.reverse]

/-- The tokens of a text.  `gathered` is the token being read, in reverse, and
`quoted` says that it is between quotes. -/
def tokensFrom (gathered : List Char) (quoted : Bool) : List Char → List String
  | [] => flush gathered
  | c :: cs =>
    if quoted then
      if c == '"' then flush (c :: gathered) ++ tokensFrom [] false cs
      else tokensFrom (c :: gathered) true cs
    else if c == '"' then flush gathered ++ tokensFrom [c] true cs
    else if c == '(' || c == ')' then
      flush gathered ++ String.singleton c :: tokensFrom [] false cs
    else if isSeparator c then flush gathered ++ tokensFrom [] false cs
    else tokensFrom (c :: gathered) false cs

/-- The tokens of a text. -/
def tokens (text : String) : List String := tokensFrom [] false text.toList

/-! ## Expressions -/

/-- Reads tokens with a stack of open lists, innermost first, each holding its
items in reverse.  The reader stops after the first whole expression. -/
def readTokens : List (List SExpr) → List String → Except SExprError (SExpr × List String)
  | [], [] => .error .endOfInput
  | _ :: _, [] => .error .unbalanced
  | stack, "(" :: rest => readTokens ([] :: stack) rest
  | [], ")" :: _ => .error .unexpectedClose
  | [gathered], ")" :: rest => .ok (list gathered.reverse, rest)
  | gathered :: outer :: stack, ")" :: rest =>
    readTokens ((list gathered.reverse :: outer) :: stack) rest
  | [], token :: rest => .ok (atom token, rest)
  | gathered :: stack, token :: rest => readTokens ((atom token :: gathered) :: stack) rest

/-- The single expression of a text. -/
def ofString (text : String) : Except SExprError SExpr := do
  let (e, rest) ← readTokens [] (tokens text)
  if rest.isEmpty then return e else throw (.trailing (" ".intercalate rest))

end SExpr

/-! ## Responses -/

namespace Response

/-- What is known of a response read in part. -/
structure Partial where
  /-- The characters so far, in reverse. -/
  gathered : List Char := []
  /-- The number of open parentheses. -/
  depth : Int := 0
  /-- A parenthesis was opened. -/
  started : Bool := false
  /-- The next character is between quotes. -/
  quoted : Bool := false
deriving Repr, DecidableEq

/-- The text of a response, without blanks at its ends. -/
def Partial.text (p : Partial) : String :=
  String.ofList (Text.stripWhere Text.isBlank p.gathered.reverse)

/-- The state after one more character that does not end a line. -/
def Partial.push (p : Partial) (c : Char) : Partial :=
  let p := { p with gathered := c :: p.gathered }
  if p.quoted then { p with quoted := c != '"' }
  else if c == '"' then { p with quoted := true }
  else if c == '(' then { p with depth := p.depth + 1, started := true }
  else if c == ')' then { p with depth := p.depth - 1 }
  else p

/-- The response that starts with `p` and goes on with the characters, and what
follows it.  A stream that ends inside a list has no further response. -/
def nextFrom (p : Partial) : List Char → Option (String × List Char)
  | [] => if !p.gathered.isEmpty && p.depth == 0 then some (p.text, []) else none
  | c :: cs =>
    if c == '\n' && !p.quoted && p.depth == 0 then
      if p.text != "" then some (p.text, cs) else nextFrom { p with gathered := [] } cs
    else
      let p := p.push c
      if p.started && p.depth == 0 then some (p.text, cs) else nextFrom p cs

/-- The next response of a stream. -/
def next? (cs : List Char) : Option (String × List Char) := nextFrom {} cs

/-- A response that is complete before the stream ends, so that nothing more
needs to arrive. -/
def completeFrom (p : Partial) : List Char → Option (String × List Char)
  | [] => none
  | c :: cs =>
    if c == '\n' && !p.quoted && p.depth == 0 then
      if p.text != "" then some (p.text, cs) else completeFrom { p with gathered := [] } cs
    else
      let p := p.push c
      if p.started && p.depth == 0 then some (p.text, cs) else completeFrom p cs

/-- All responses of a stream, at most as many as the fuel. -/
def allUpTo : Nat → List Char → List String
  | 0, _ => []
  | fuel + 1, cs =>
    match next? cs with
    | some (text, rest) => text :: allUpTo fuel rest
    | none => []

/-- All responses of a stream. -/
def all (cs : List Char) : List String := allUpTo (cs.length + 1) cs

/-! ## Reading responses -/

/-- An integer as one word: a negative number loses its parentheses. -/
def integerText : SExpr → String
  | .list [.atom "-", e] => "-" ++ e.render
  | e => e.render

/-- The name and value of a definition without parameters. -/
def definition? : SExpr → Option (String × String)
  | .list [.atom "define-fun", name, .list [], _, value] => some (name.atomText, integerText value)
  | _ => none

/-- The constants of a model.  Definitions of functions are skipped, and of two
definitions the later counts. -/
def model (text : String) : Except ReplyError Model := do
  let e ← (SExpr.ofString text).mapError .model
  let entries := match e.items with
    | .atom "model" :: rest => rest
    | entries => entries
  return (entries.filterMap definition?).foldl (fun m (name, value) => m.insert name value) []

/-- The names of a core. -/
def core (text : String) : Except ReplyError (List String) := do
  match ← (SExpr.ofString text).mapError .core with
  | .list items => return items.map SExpr.render
  | .atom _ => throw (.coreShape text)

/-- The reason for an unknown answer; the text itself when it is no pair. -/
def reason (text : String) : String :=
  match SExpr.ofString text with
  | .ok (.list [_, e]) => String.ofList (Text.stripWhere (· == '"') e.atomText.toList)
  | _ => text

end Response

end ResourceSafety.Logic
