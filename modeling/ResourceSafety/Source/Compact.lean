import ResourceSafety.Source.Span
import ResourceSafety.Text.Blank
import ResourceSafety.Text.Decimal
import ResourceSafety.Text.Quoted

/-!
# Compact spans

The short form in which traces and ledgers write a span of a known file:

* `L:C` is one column;
* `L:C-C2` lies on one line;
* `L:C-L2:C2` runs over several lines.

Numbers are signed 64-bit numerals, and blanks around the whole are dropped.
Offsets are not part of the form and read as zero.
-/

namespace ResourceSafety

/-- What is wrong with a compact span. -/
inductive CompactSpanError
  /-- A place without a colon. -/
  | noPlace (text : String)
  /-- A line that is no positive number. -/
  | badLine (text : String)
  /-- A column that is no positive number. -/
  | badColumn (text : String)
  /-- An end column that is no number. -/
  | badEndColumn
  /-- A range that is no valid span. -/
  | endPrecedesStart
deriving Repr, DecidableEq

/-- The wording of an error. -/
def CompactSpanError.message : CompactSpanError → String
  | .noPlace text => "expected line:col, got " ++ Text.quote text
  | .badLine text => "bad line " ++ Text.quote text
  | .badColumn text => "bad column " ++ Text.quote text
  | .badEndColumn => "bad end column"
  | .endPrecedesStart => "end precedes start"

namespace Text

/-- The characters before and after the first `c`. -/
def cut (c : Char) : List Char → Option (List Char × List Char)
  | [] => none
  | d :: ds =>
    if d == c then some ([], ds)
    else (cut c ds).map fun (before, after) => (d :: before, after)

end Text

namespace Span

/-- A positive 64-bit numeral. -/
def positive? (cs : List Char) : Option Int64 := do
  let n ← Text.signed? cs
  if 1 ≤ n then some n else none

/-- A line and a column. -/
def place (cs : List Char) : Except CompactSpanError (Int64 × Int64) :=
  match Text.cut ':' cs with
  | none => .error (.noPlace (String.ofList cs))
  | some (lineText, columnText) =>
    match positive? lineText with
    | none => .error (.badLine (String.ofList lineText))
    | some line =>
      match positive? columnText with
      | none => .error (.badColumn (String.ofList columnText))
      | some column => .ok (line, column)

/-- The end of a range that starts at `line`. -/
def rangeEnd (file : String) (line : Int64) (cs : List Char) : Except CompactSpanError Position :=
  if cs.contains ':' then
    (place cs).map fun (l, c) => { file, line := l, column := c }
  else
    match Text.signed? cs with
    | none => .error .badEndColumn
    | some column => .ok { file, line, column }

/-- A compact span, blanks already dropped. -/
def readCompact (file : String) (cs : List Char) : Except CompactSpanError Span :=
  match Text.cut '-' cs with
  | none => (place cs).map fun (line, column) => .point file line column
  | some (startText, endText) => do
    let (line, column) ← place startText
    let stop ← rangeEnd file line endText
    let span : Span := ⟨{ file, line, column }, stop⟩
    if span.isValid then .ok span else .error .endPrecedesStart

/-- The span of `file` that a compact text names. -/
def ofCompact (file text : String) : Except CompactSpanError Span :=
  readCompact file (Text.stripWhere Text.isBlank text.toList)

/-- The wording of a refusal, with the text that was refused. -/
def compactErrorMessage (text : String) (e : CompactSpanError) : String :=
  "span " ++ Text.quote (Text.trim text) ++ ": " ++ e.message

end Span

end ResourceSafety
