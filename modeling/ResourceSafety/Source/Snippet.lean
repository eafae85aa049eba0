import ResourceSafety.Source.Span
import ResourceSafety.Text.Parts

/-!
# Snippets

A snippet shows the source lines of a span, with a line of carets under each of
them.  Around the span it shows `context` further lines, without carets.

A source line is written as its number, right-aligned in four places, a bar and
its text.  The marker line under it repeats the tabs of the source line up to
the first caret and puts spaces for its other characters, so that the carets
stand under the covered columns.  There is always at least one caret, also
past the end of the line.
-/

namespace ResourceSafety

/-- A set of source files by name. -/
abbrev Sources := List (String × String)

/-- The lines of a text. -/
def sourceLines (text : String) : List String := Text.parts '\n' text

/-- The line with a number, counted from one; the empty text outside. -/
def lineAt (lines : List String) (n : Int64) : String :=
  if n < 1 then "" else (lines[n.toInt.toNat - 1]?).getD ""

namespace Snippet

/-- A number right-aligned in four places. -/
def gutter (n : Int64) : String :=
  let digits := toString n
  String.ofList (List.replicate (4 - digits.length) ' ') ++ digits

/-- The blanks before the first caret.  A tab of the line stays a tab. -/
def indent : (width : Nat) → List Char → List Char
  | 0, _ => []
  | w + 1, [] => ' ' :: indent w []
  | w + 1, c :: cs => (if c == '\t' then '\t' else ' ') :: indent w cs

/-- The number of carets for the columns from `first` up to `stop` on a line of
`length` characters. -/
def caretCount (length first stop : Int) : Nat :=
  (max (min (stop - first) (length - first + 1)) 1).toNat

/-- The marker line under a line for the columns from `first` up to `stop`. -/
def marker (line : String) (first stop : Int) : String :=
  let cs := line.toList
  String.ofList (indent (first - 1).toNat cs ++ List.replicate (caretCount cs.length first stop) '^')

/-- The columns of line `n` that a span covers.  Lines after the first start at
column one, and lines before the last end after their last character. -/
def columns (span : Span) (n : Int64) (length : Nat) : Int × Int :=
  (if n = span.start.line then span.start.column.toInt else 1,
   if n = span.stop.line then span.stop.column.toInt else length + 1)

/-- A source line, with its marker line when the span covers it. -/
def renderLine (span : Span) (n : Int64) (line : String) : String :=
  let shown := gutter n ++ " | " ++ line ++ "\n"
  if span.start.line ≤ n && n ≤ span.stop.line then
    let (first, stop) := columns span n line.length
    shown ++ "     | " ++ marker line first stop ++ "\n"
  else shown

/-- The numbers of the lines a snippet shows.  The sum with the context wraps,
so a span near the largest line number shows nothing. -/
def lineNumbers (span : Span) (context : Int64) (count : Nat) : List Int64 :=
  let first := max 1 (span.start.line - context).toInt
  let last := min (count : Int) (span.stop.line + context).toInt
  (List.range (last - first + 1).toNat).map fun (i : Nat) => Int64.ofInt (first + i)

end Snippet

/-- The snippet of a span, empty when the span is invalid or its file is not
among the sources.  A negative context counts as none. -/
def snippet (sources : Sources) (context : Int64) (span : Span) : String :=
  if !span.isValid then ""
  else match sources.lookup span.start.file with
    | none => ""
    | some text =>
      let lines := sourceLines text
      let shown := Snippet.lineNumbers span (max context 0) lines.length
      String.join (shown.map fun n => Snippet.renderLine span n (lineAt lines n))

end ResourceSafety
