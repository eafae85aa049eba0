import ResourceSafety.Proofs.Text.Decimal
import ResourceSafety.Source.Compact

/-!
# Compact spans read back

A valid span without offsets is written as lines and columns, and these and its file give it back
(`Span.ofCompact_renderRange`).  Lines and columns are positive, so the text has no hyphen but the
one between its ends, and no blank.
-/

namespace ResourceSafety

namespace Text

theorem cut_append {c : Char} {before : List Char} (first : c ∉ before) (after : List Char) :
    cut c (before ++ c :: after) = some (before, after) := by
  induction before with
  | nil => exact if_pos (beq_self_eq_true c)
  | cons d before ih =>
    obtain ⟨ne, first⟩ := not_or.mp (mt List.mem_cons.mpr first)
    rw [List.cons_append, cut, if_neg (mt beq_iff_eq.mp (Ne.symm ne)), ih first]
    rfl

theorem stripWhere_of_forall {p : Char → Bool} {cs : List Char} (none : ∀ c ∈ cs, p c = false) :
    stripWhere p cs = cs := by
  have solid {ds : List Char} (mem : ∀ c ∈ ds, c ∈ cs) : ds.dropWhile p = ds := by
    cases ds with
    | nil => rfl
    | cons d ds => exact List.dropWhile_cons_of_neg (by simp [none d (mem d List.mem_cons_self)])
  rw [stripWhere, solid fun _ => id, solid fun _ => List.mem_reverse.mp, List.reverse_reverse]

/-- A positive number is written with digits only. -/
theorem isDigit_of_mem_toString {n : Int64} (pos : 0 < n) {c : Char}
    (mem : c ∈ (toString n).toList) : c.isDigit = true := by
  have positive : 0 < n.toInt := Int64.lt_iff_toInt_lt.mp pos
  have text : (toString n).toList = (toString (n.toInt.toNat : Int)).toList := by
    rw [Int.toNat_of_nonneg (Int.le_of_lt positive)]
    rfl
  rw [text, toList_toString_ofNat] at mem
  exact isDigit_of_mem_digits mem

end Text

namespace Span

variable {s : Span}

/-! ## Lines and columns -/

theorem positive?_toString {n : Int64} (pos : 0 < n) : positive? (toString n).toList = some n := by
  have least : 1 ≤ n := by
    rw [Int64.lt_iff_toInt_lt] at pos
    rw [Int64.le_iff_toInt_le]
    exact pos
  rw [positive?, Text.signed?_toString]
  exact if_pos least

/-- A line and a column as text. -/
def placeChars (line column : Int64) : List Char :=
  (toString line).toList ++ ':' :: (toString column).toList

theorem place_placeChars {line column : Int64} (hl : 0 < line) (hc : 0 < column) :
    place (placeChars line column) = .ok (line, column) := by
  have colon : ':' ∉ (toString line).toList := Text.notMem_toString rfl (by decide)
  rw [place, placeChars, Text.cut_append colon]
  simp only [positive?_toString hl, positive?_toString hc]

/-- A character of a line and a column is a digit or the colon. -/
theorem mem_placeChars {line column : Int64} (hl : 0 < line) (hc : 0 < column) {c : Char}
    (mem : c ∈ placeChars line column) : c.isDigit = true ∨ c = ':' := by
  obtain mem | mem := List.mem_append.mp mem
  · exact .inl (Text.isDigit_of_mem_toString hl mem)
  · obtain same | mem := List.mem_cons.mp mem
    · exact .inr same
    · exact .inl (Text.isDigit_of_mem_toString hc mem)

/-! ## Ranges -/

/-- The end of a range as text, without the line when the range is on one line. -/
def endChars (s : Span) : List Char :=
  if s.start.line = s.stop.line then (toString s.stop.column).toList
  else placeChars s.stop.line s.stop.column

theorem toList_renderRange (s : Span) :
    s.renderRange.toList = placeChars s.start.line s.start.column ++ '-' :: s.endChars := by
  unfold renderRange endChars placeChars
  split
  · simp [toString, String.toList_append]
  · simp [toString, String.toList_append]

/-- The ends of a span are in one file, and their lines and columns are positive. -/
structure Placed (s : Span) : Prop where
  file : s.start.file = s.stop.file
  startLine : 0 < s.start.line
  startColumn : 0 < s.start.column
  stopLine : 0 < s.stop.line
  stopColumn : 0 < s.stop.column

theorem placed_of_isValid (valid : s.isValid = true) : s.Placed := by
  simp only [isValid, Position.isValid, Bool.and_eq_true, decide_eq_true_eq, beq_iff_eq] at valid
  exact ⟨valid.1.2, valid.1.1.1.1.1, valid.1.1.1.1.2, valid.1.1.2.1.1, valid.1.1.2.1.2⟩

theorem Placed.mem_endChars (placed : s.Placed) {c : Char} (mem : c ∈ s.endChars) :
    c.isDigit = true ∨ c = ':' := by
  unfold endChars at mem
  split at mem
  · exact .inl (Text.isDigit_of_mem_toString placed.stopColumn mem)
  · exact mem_placeChars placed.stopLine placed.stopColumn mem

theorem Placed.rangeEnd_endChars (placed : s.Placed) (offset : s.stop.offset = 0) :
    rangeEnd s.start.file s.start.line s.endChars = .ok s.stop := by
  unfold rangeEnd endChars
  split
  next same =>
    have digits : (toString s.stop.column).toList.contains ':' = false := by
      rw [← Bool.not_eq_true, List.contains_iff_mem]
      exact Text.notMem_toString rfl (by decide)
    rw [digits, Text.signed?_toString, placed.file, same, ← offset]
    rfl
  next =>
    have colon : (placeChars s.stop.line s.stop.column).contains ':' = true := by
      rw [List.contains_iff_mem, placeChars]
      exact List.mem_append_right _ List.mem_cons_self
    rw [colon, place_placeChars placed.stopLine placed.stopColumn, placed.file, ← offset]
    rfl

theorem isBlank_of_isDigit {c : Char} (h : c.isDigit = true ∨ c = ':') :
    Text.isBlank c = false := by
  obtain digit | rfl := h
  · have bounds : 48 ≤ c.toNat ∧ c.toNat ≤ 57 := by
      simpa [Char.isDigit, UInt32.le_iff_toNat_le] using digit
    simp [Text.isBlank]
    omega
  · rfl

/-- A valid span without offsets reads back from its lines and columns. -/
theorem ofCompact_renderRange (valid : s.isValid = true) (start : s.start.offset = 0)
    (stop : s.stop.offset = 0) : ofCompact s.start.file s.renderRange = .ok s := by
  have placed := placed_of_isValid valid
  have solid : ∀ c ∈ s.renderRange.toList, Text.isBlank c = false := by
    intro c mem
    rw [toList_renderRange] at mem
    obtain mem | mem := List.mem_append.mp mem
    · exact isBlank_of_isDigit (mem_placeChars placed.startLine placed.startColumn mem)
    · obtain rfl | mem := List.mem_cons.mp mem
      · rfl
      · exact isBlank_of_isDigit (placed.mem_endChars mem)
  have hyphen : '-' ∉ placeChars s.start.line s.start.column := fun mem =>
    absurd (mem_placeChars placed.startLine placed.startColumn mem) (by decide)
  have whole : (⟨{ file := s.start.file, line := s.start.line, column := s.start.column },
      s.stop⟩ : Span) = s := by
    rw [← start]
  rw [ofCompact, Text.stripWhere_of_forall solid, toList_renderRange, readCompact,
    Text.cut_append hyphen]
  simp only [bind, Except.bind, place_placeChars placed.startLine placed.startColumn,
    placed.rangeEnd_endChars stop, whole, if_pos valid]

end Span

end ResourceSafety
