import ResourceSafety.Proofs.Source.Compact
import ResourceSafety.Proofs.Source.Containment

/-!
# Compact spans that are read

The reader takes more texts than the printer writes: blanks around the whole, signs, leading zeros,
and one column by itself.  What it reads is a valid span of the file, and the printer's text for it
reads as the same span.

There is one exception.  A range is checked before it is given out, and one column is not.  Its end
is the column after it, and the greatest column has none: the sum wraps, and the end stands before
the start.  With this exception spans that are read are usable (`Span.readsBack_iff`).
-/

namespace ResourceSafety.Span

variable {s : Span} {file text : String} {cs : List Char} {line column : Int64}

/-! ## Numbers -/

theorem pos_of_positive? (read : positive? cs = some line) : 0 < line := by
  obtain ⟨n, -, least⟩ := Option.bind_eq_some_iff.mp read
  split at least
  next positive =>
    cases least
    exact Int64.lt_iff_toInt_lt.mpr (Int64.le_iff_toInt_le.mp positive)
  next => cases least

theorem pos_of_place (read : place cs = .ok (line, column)) : 0 < line ∧ 0 < column := by
  unfold place at read
  split at read
  next => cases read
  next =>
    split at read
    next => cases read
    next line first =>
      split at read
      next => cases read
      next column second =>
        cases read
        exact ⟨pos_of_positive? first, pos_of_positive? second⟩

/-- Below the greatest number the next one does not wrap. -/
theorem toInt_succ (below : column ≠ Int64.maxValue) : (column + 1).toInt = column.toInt + 1 := by
  have high := column.toInt_lt
  have low := column.le_toInt
  have differ : column.toInt ≠ Int64.maxValue.toInt := mt Int64.toInt_inj.mp below
  have greatest : Int64.maxValue.toInt = 2 ^ 63 - 1 := rfl
  rw [Int64.toInt_add, show (1 : Int64).toInt = 1 from rfl]
  exact Int.bmod_eq_of_le (by omega) (by omega)

/-! ## One column -/

/-- One column is a valid span, unless it is the greatest. -/
theorem isValid_point (hl : 0 < line) (hc : 0 < column) :
    (point file line column).isValid = true ↔ column ≠ Int64.maxValue := by
  constructor
  · rintro valid rfl
    have wrapped : 0 < Int64.maxValue + 1 := (placed_of_isValid valid).stopColumn
    exact absurd wrapped (by decide)
  · intro below
    have next := toInt_succ below
    have after : 0 < column + 1 := by
      have zero : (0 : Int64).toInt = 0 := rfl
      rw [Int64.lt_iff_toInt_lt] at hc ⊢
      omega
    have same : (point file line column).stop.file = (point file line column).start.file := rfl
    have forward : (point file line column).stop.before (point file line column).start = false := by
      rw [← Bool.not_eq_true, Position.before_iff same]
      show ¬(line.toInt < line.toInt ∨ line.toInt = line.toInt ∧ (column + 1).toInt < column.toInt)
      omega
    rw [isValid, forward]
    simp [point, Position.isValid, hl, hc, after]

/-! ## Spans -/

/-- The span begins in the file, and it has no offsets. -/
structure Bare (file : String) (s : Span) : Prop where
  file : s.start.file = file
  start : s.start.offset = 0
  stop : s.stop.offset = 0

theorem offset_of_rangeEnd {stop : Position} (read : rangeEnd file line cs = .ok stop) :
    stop.offset = 0 := by
  unfold rangeEnd at read
  split at read
  next =>
    cases found : place cs with
    | error e =>
      rw [found] at read
      cases read
    | ok ends =>
      rw [found] at read
      cases read
      rfl
  next =>
    split at read
    next => cases read
    next =>
      cases read
      rfl

/-- What is read is a range that was found valid, or one column. -/
theorem readCompact_cases (read : readCompact file cs = .ok s) :
    s.Bare file ∧
      (s.isValid = true ∨ ∃ line column, 0 < line ∧ 0 < column ∧ s = point file line column) := by
  unfold readCompact at read
  split at read
  next =>
    cases found : place cs with
    | error e =>
      rw [found] at read
      cases read
    | ok start =>
      rw [found] at read
      cases read
      obtain ⟨hl, hc⟩ := pos_of_place found
      exact ⟨⟨rfl, rfl, rfl⟩, .inr ⟨start.1, start.2, hl, hc, rfl⟩⟩
  next startText endText _ =>
    simp only [bind, Except.bind] at read
    split at read
    next => cases read
    next start _ =>
      split at read
      next => cases read
      next stop ends =>
        split at read
        next valid =>
          cases read
          exact ⟨⟨rfl, rfl, offset_of_rangeEnd ends⟩, .inl valid⟩
        next => cases read

/-- A span that was read is valid, and the text that is written for it reads as the same span, if
and only if it is not the greatest column by itself. -/
theorem readsBack_iff (read : ofCompact file text = .ok s) :
    s.isValid = true ∧ ofCompact file s.renderRange = .ok s ↔
      s ≠ point file s.start.line Int64.maxValue := by
  obtain ⟨bare, shape⟩ := readCompact_cases read
  constructor
  · rintro ⟨valid, -⟩ greatest
    rw [greatest] at valid
    have placed := placed_of_isValid valid
    exact (isValid_point placed.startLine placed.startColumn).mp valid rfl
  · intro other
    have valid : s.isValid = true := by
      obtain valid | ⟨line, column, hl, hc, rfl⟩ := shape
      · exact valid
      · exact (isValid_point hl hc).mpr fun greatest => other (greatest ▸ rfl)
    have again := ofCompact_renderRange valid bare.start bare.stop
    rw [bare.file] at again
    exact ⟨valid, again⟩

/-- Blanks, signs and leading zeros are read, and the text that is written has none of them. -/
theorem readsBack_signed :
    ofCompact "unit.oz" " +01:007-2:+3\n" = .ok ⟨⟨"unit.oz", 1, 7, 0⟩, ⟨"unit.oz", 2, 3, 0⟩⟩ ∧
      (⟨⟨"unit.oz", 1, 7, 0⟩, ⟨"unit.oz", 2, 3, 0⟩⟩ : Span).isValid = true ∧
      ofCompact "unit.oz" "1:7-2:3" = .ok ⟨⟨"unit.oz", 1, 7, 0⟩, ⟨"unit.oz", 2, 3, 0⟩⟩ := by
  have read : ofCompact "unit.oz" " +01:007-2:+3\n" =
      .ok ⟨⟨"unit.oz", 1, 7, 0⟩, ⟨"unit.oz", 2, 3, 0⟩⟩ := rfl
  exact ⟨read, (readsBack_iff read).mpr (by decide)⟩

/-- The greatest column is read as a span that is not valid and that does not read back. -/
theorem greatestColumn_unusable :
    ofCompact "unit.oz" "1:9223372036854775807" = .ok (point "unit.oz" 1 Int64.maxValue) ∧
      (point "unit.oz" 1 Int64.maxValue).isValid = false ∧
      ofCompact "unit.oz" (point "unit.oz" 1 Int64.maxValue).renderRange =
        .error .endPrecedesStart :=
  ⟨rfl, by decide, rfl⟩

end ResourceSafety.Span
