import ResourceSafety.Path

/-!
# Positions

A position is a point of a source file: a line and a column, both counted from
one, and a byte offset, zero when unknown.  All three are signed 64-bit
numbers, and arithmetic on them wraps.

Positions are ordered by file name, then line, then column.  Offsets take no
part in the order, so two positions may compare equal and still differ.
-/

namespace ResourceSafety

/-- A point of a source file. -/
structure Position where
  /-- The name of the file. -/
  file : String := ""
  /-- The line, counted from one. -/
  line : Int64 := 0
  /-- The column, counted from one. -/
  column : Int64 := 0
  /-- The byte offset, zero when unknown. -/
  offset : Int64 := 0
deriving Repr, DecidableEq, Inhabited

namespace Position

/-- Line and column are positive and the offset is not negative. -/
def isValid (p : Position) : Bool := 0 < p.line && 0 < p.column && 0 ≤ p.offset

/-- The text of the file's base name, line and column.  A position without a
file is written without one. -/
def render (p : Position) : String :=
  if p.file != "" then s!"{baseName p.file}:{p.line}:{p.column}" else s!"{p.line}:{p.column}"

/-- The order of positions: by file, then line, then column. -/
def compare (p q : Position) : Ordering :=
  if p.file ≠ q.file then (if p.file < q.file then .lt else .gt)
  else if p.line ≠ q.line then (if p.line < q.line then .lt else .gt)
  else if p.column ≠ q.column then (if p.column < q.column then .lt else .gt)
  else .eq

/-- `p` comes before `q`. -/
def before (p q : Position) : Bool := p.compare q == .lt

/-- `p` comes after `q`. -/
def after (p q : Position) : Bool := p.compare q == .gt

end Position

end ResourceSafety
