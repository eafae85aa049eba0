import ResourceSafety.Source.Span

/-!
# Containment of spans

Within one file, positions are in the order of their lines and columns
(`Position.before_iff`).  Offsets take no part, so two positions can be level without being equal.

A span that contains another, or is contained, is valid, and lies in one file.  It is a matter of
lines and columns alone (`Span.contains_iff_encloses`).  So containment is
reflexive on valid spans and transitive on all (`Span.contains_refl`, `Span.contains_trans`).  It
is no order: two spans that contain each other may have different offsets.
-/

namespace ResourceSafety

namespace Position

variable {p q : Position}

/-- A comparison that goes on when two numbers are equal. -/
theorem compare_then (a b : Int64) (next : Ordering) :
    (if a ≠ b then if a < b then Ordering.lt else .gt else next) =
      (Ord.compare a.toInt b.toInt).then next := by
  rcases Int.lt_trichotomy a.toInt b.toInt with less | same | greater
  · have differ : a ≠ b := fun eq => Int.lt_irrefl _ (eq ▸ less)
    rw [if_pos differ, if_pos (Int64.lt_iff_toInt_lt.mpr less), Int.compare_eq_lt.mpr less]
    rfl
  · rw [if_neg (fun differ => differ (Int64.toInt_inj.mp same)), Int.compare_eq_eq.mpr same]
    rfl
  · have differ : a ≠ b := fun eq => Int.lt_irrefl _ (eq ▸ greater)
    have notLess : ¬a < b := fun less =>
      Int.lt_asymm greater (Int64.lt_iff_toInt_lt.mp less)
    rw [if_pos differ, if_neg notLess, Int.compare_eq_gt.mpr greater]
    rfl

/-- Within one file, lines are compared first, and then columns. -/
theorem compare_of_file (file : p.file = q.file) :
    p.compare q = (Ord.compare p.line.toInt q.line.toInt).then
      (Ord.compare p.column.toInt q.column.toInt) := by
  rw [compare, if_neg (fun differ => differ file), compare_then, compare_then, Ordering.then_eq]

theorem before_iff (file : p.file = q.file) :
    p.before q = true ↔
      p.line.toInt < q.line.toInt ∨
        p.line.toInt = q.line.toInt ∧ p.column.toInt < q.column.toInt := by
  rw [before, beq_iff_eq, compare_of_file file, Ordering.then_eq_lt, Int.compare_eq_lt,
    Int.compare_eq_eq, Int.compare_eq_lt]

theorem after_iff (file : p.file = q.file) :
    p.after q = true ↔
      q.line.toInt < p.line.toInt ∨
        p.line.toInt = q.line.toInt ∧ q.column.toInt < p.column.toInt := by
  rw [after, beq_iff_eq, compare_of_file file, Ordering.then_eq_gt, Int.compare_eq_gt,
    Int.compare_eq_eq, Int.compare_eq_gt]

end Position

namespace Span

variable {s t u : Span}

theorem file_of_isValid (valid : s.isValid = true) : s.stop.file = s.start.file := by
  simp only [isValid, Bool.and_eq_true, beq_iff_eq] at valid
  exact valid.1.2.symm

/-- A span lies inside another of its file that begins no later and ends no earlier. -/
theorem contains_iff :
    s.contains t = true ↔
      s.isValid = true ∧ t.isValid = true ∧ s.start.file = t.start.file ∧
        ¬t.start.before s.start = true ∧ ¬t.stop.after s.stop = true := by
  simp only [contains, Bool.and_eq_true, beq_iff_eq, Bool.not_eq_true', Bool.not_eq_true, and_assoc]

/-- Both spans are valid and lie in one file, and the second one begins no earlier and ends no later:
not on an earlier or later line, and not on the same line at an earlier or later column. -/
structure Encloses (s t : Span) : Prop where
  outer : s.isValid = true
  inner : t.isValid = true
  file : s.start.file = t.start.file
  starts : s.start.line.toInt < t.start.line.toInt ∨
    s.start.line.toInt = t.start.line.toInt ∧ s.start.column.toInt ≤ t.start.column.toInt
  stops : t.stop.line.toInt < s.stop.line.toInt ∨
    t.stop.line.toInt = s.stop.line.toInt ∧ t.stop.column.toInt ≤ s.stop.column.toInt

theorem contains_iff_encloses : s.contains t = true ↔ s.Encloses t := by
  rw [contains_iff]
  constructor
  · rintro ⟨outer, inner, file, starts, stops⟩
    have stopFile : t.stop.file = s.stop.file := by
      rw [file_of_isValid outer, file_of_isValid inner, file]
    rw [Position.before_iff file.symm] at starts
    rw [Position.after_iff stopFile] at stops
    exact ⟨outer, inner, file, by omega, by omega⟩
  · rintro ⟨outer, inner, file, starts, stops⟩
    have stopFile : t.stop.file = s.stop.file := by
      rw [file_of_isValid outer, file_of_isValid inner, file]
    rw [Position.before_iff file.symm, Position.after_iff stopFile]
    exact ⟨outer, inner, file, by omega, by omega⟩

instance : Decidable (s.Encloses t) := decidable_of_iff _ contains_iff_encloses

theorem contains_refl (valid : s.isValid = true) : s.contains s = true := by
  exact contains_iff_encloses.mpr ⟨valid, valid, rfl, .inr ⟨rfl, Int.le_refl _⟩, .inr ⟨rfl, Int.le_refl _⟩⟩

theorem contains_trans (outer : s.contains t = true) (inner : t.contains u = true) :
    s.contains u = true := by
  obtain ⟨validS, -, fileST, starts, stops⟩ := contains_iff_encloses.mp outer
  obtain ⟨-, validU, fileTU, starts', stops'⟩ := contains_iff_encloses.mp inner
  exact contains_iff_encloses.mpr
    ⟨validS, validU, fileST.trans fileTU, by omega, by omega⟩

end Span

end ResourceSafety
