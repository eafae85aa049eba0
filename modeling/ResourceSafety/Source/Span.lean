import ResourceSafety.Source.Position

/-!
# Spans

A span runs from a start position up to, and not including, an end position.
Violations, diagnostics and proof notes are all anchored to spans.

A span is *valid* when both ends are valid positions of one file and the end
does not come before the start.  The *zero* span stands for "no place".

`contains` and `union` look at valid spans only.  An invalid span contains
nothing and is contained in nothing, and a union with it is the other span.
-/

namespace ResourceSafety

/-- A range of source text. -/
structure Span where
  /-- The first position inside. -/
  start : Position := {}
  /-- The first position after. -/
  stop : Position := {}
deriving Repr, DecidableEq, Inhabited

namespace Span

/-- The span of no place. -/
def zero : Span := {}

/-- The span of one column. -/
def point (file : String) (line column : Int64) : Span :=
  ⟨{ file, line, column }, { file, line, column := column + 1 }⟩

/-- Both ends are valid positions of one file, in order. -/
def isValid (s : Span) : Bool :=
  s.start.isValid && s.stop.isValid && s.start.file == s.stop.file && !s.stop.before s.start

/-- The span was never set. -/
def isZero (s : Span) : Bool := s == zero

/-- Lines and columns of a span, without its file.  The end line is written
only when it differs from the start line. -/
def renderRange (s : Span) : String :=
  if s.start.line = s.stop.line then s!"{s.start.line}:{s.start.column}-{s.stop.column}"
  else s!"{s.start.line}:{s.start.column}-{s.stop.line}:{s.stop.column}"

/-- The text of a span: the base name of its file, then lines and columns. -/
def render (s : Span) : String :=
  if s.start.file != "" then baseName s.start.file ++ ":" ++ s.renderRange else s.renderRange

/-- `other` lies entirely inside `s`. -/
def contains (s other : Span) : Bool :=
  s.isValid && other.isValid && s.start.file == other.start.file &&
    !other.start.before s.start && !other.stop.after s.stop

/-- The smallest span around both.  Of spans in two files the first is kept. -/
def union (s other : Span) : Span :=
  if !s.isValid then other
  else if !other.isValid then s
  else if s.start.file ≠ other.start.file then s
  else
    ⟨if other.start.before s.start then other.start else s.start,
     if other.stop.after s.stop then other.stop else s.stop⟩

end Span

end ResourceSafety
