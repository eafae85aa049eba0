import ResourceSafety.Proofs.Source.Compact

/-!
# Texts of spans

The text of a span is a heading for its file and the range of its lines and columns.  A range is
written in one of two forms, and its numbers may be negative, so a hyphen in it is a minus or stands
between the ends.  All the same a range tells the lines and columns of both ends, whatever they are
(`Span.renderRange_inj`): every number ends at the first character that cannot go on with it, and
the end has a colon only in the form that writes its line.
-/

namespace ResourceSafety

namespace Text

/-- What stands before the first `c` is told apart from what stands after. -/
theorem append_cons_inj {c : Char} {before before' after after' : List Char} (first : c ∉ before)
    (first' : c ∉ before') (same : before ++ c :: after = before' ++ c :: after') :
    before = before' ∧ after = after' := by
  have cuts := congrArg (cut c) same
  rw [cut_append first, cut_append first'] at cuts
  exact Prod.mk.inj (Option.some.inj cuts)

/-! ## Numbers -/

/-- A number is written with digits, perhaps after a minus. -/
theorem toString_eq_digits (n : Int64) :
    ∃ k, (toString n).toList = '-' :: Nat.toDigits 10 k ∨
      (toString n).toList = Nat.toDigits 10 k := by
  have text : (toString n).toList = (toString n.toInt).toList := rfl
  rw [text]
  cases n.toInt with
  | ofNat m => exact ⟨m, .inr (toList_toString_ofNat m)⟩
  | negSucc m => exact ⟨m + 1, .inl (toList_toString_negSucc m)⟩

theorem cons_ne_digits_append {c : Char} (other : c.isDigit = false) (k : Nat)
    (rest rest' : List Char) : c :: rest ≠ Nat.toDigits 10 k ++ rest' := by
  obtain ⟨d, ds, digits, digit⟩ := exists_toDigits k
  rw [digits, List.cons_append]
  rintro same
  rw [(List.cons.inj same).1, digit] at other
  cases other

/-- A text that begins with a number does not begin with any other character. -/
theorem cons_ne_toString_append {c : Char} (other : c.isDigit = false) (minus : c ≠ '-')
    (n : Int64) (rest rest' : List Char) : c :: rest ≠ (toString n).toList ++ rest' := by
  obtain ⟨k, negative | positive⟩ := toString_eq_digits n
  · rw [negative]
    exact fun same => minus (List.cons.inj same).1
  · rw [positive]
    exact cons_ne_digits_append other k rest rest'

/-- A number ends at a hyphen that is not its minus. -/
theorem toString_hyphen_inj {m n : Int64} {rest rest' : List Char}
    (same : (toString m).toList ++ '-' :: rest = (toString n).toList ++ '-' :: rest') :
    m = n ∧ rest = rest' := by
  have texts : (toString m).toList = (toString n).toList ∧ rest = rest' := by
    obtain ⟨j, hm | hm⟩ := toString_eq_digits m <;> obtain ⟨k, hn | hn⟩ := toString_eq_digits n <;>
      rw [hm, hn] at same ⊢
    · obtain ⟨digits, rests⟩ := append_cons_inj (notMem_toDigits rfl) (notMem_toDigits rfl)
        (List.cons.inj same).2
      exact ⟨congrArg _ digits, rests⟩
    · exact absurd same (cons_ne_digits_append rfl k _ _)
    · exact absurd same.symm (cons_ne_digits_append rfl j _ _)
    · exact append_cons_inj (notMem_toDigits rfl) (notMem_toDigits rfl) same
  exact ⟨Int64.toString_injective (String.toList_injective texts.1), texts.2⟩

end Text

namespace Span

variable {s t : Span}

/-! ## Ranges -/

/-- The line and the column of the start, and those of the end. -/
def places (s : Span) : (Int64 × Int64) × (Int64 × Int64) :=
  ((s.start.line, s.start.column), (s.stop.line, s.stop.column))

theorem colon_notMem_toString (n : Int64) : ':' ∉ (toString n).toList :=
  Text.notMem_toString rfl (by decide)

theorem placeChars_inj {line column line' column' : Int64}
    (same : placeChars line column = placeChars line' column') : line = line' ∧ column = column' := by
  obtain ⟨lines, columns⟩ :=
    Text.append_cons_inj (colon_notMem_toString line) (colon_notMem_toString line') same
  exact ⟨Int64.toString_injective (String.toList_injective lines),
    Int64.toString_injective (String.toList_injective columns)⟩

/-- The end of a range is written without its line when it is the line of the start. -/
theorem colon_notMem_endChars : ':' ∉ s.endChars ↔ s.start.line = s.stop.line := by
  unfold endChars
  split
  next same => exact iff_of_true (colon_notMem_toString _) same
  next differ =>
    have colon : ':' ∈ placeChars s.stop.line s.stop.column :=
      List.mem_append_right _ List.mem_cons_self
    exact iff_of_false (fun free => free colon) differ

/-- Ends of ranges that start on one line. -/
theorem endChars_inj (line : s.start.line = t.start.line) (same : s.endChars = t.endChars) :
    s.stop.line = t.stop.line ∧ s.stop.column = t.stop.column := by
  have form : s.start.line = s.stop.line ↔ t.start.line = t.stop.line := by
    rw [← colon_notMem_endChars, same, colon_notMem_endChars]
  unfold endChars at same
  by_cases within : s.start.line = s.stop.line
  · have within' := form.mp within
    rw [if_pos within, if_pos within'] at same
    exact ⟨by rw [← within, line, within'], Int64.toString_injective (String.toList_injective same)⟩
  · rw [if_neg within, if_neg (mt form.mpr within)] at same
    exact placeChars_inj same

/-- A range tells its lines and columns. -/
theorem renderRange_inj : s.renderRange = t.renderRange ↔ s.places = t.places := by
  constructor
  · intro same
    have chars := congrArg String.toList same
    rw [toList_renderRange, toList_renderRange, placeChars, placeChars, List.append_assoc,
      List.append_assoc] at chars
    obtain ⟨lines, rest⟩ := Text.append_cons_inj (colon_notMem_toString _)
      (colon_notMem_toString _) chars
    have line := Int64.toString_injective (String.toList_injective lines)
    obtain ⟨column, ends⟩ := Text.toString_hyphen_inj rest
    obtain ⟨stopLine, stopColumn⟩ := endChars_inj line ends
    rw [places, places, line, column, stopLine, stopColumn]
  · intro same
    simp only [places, Prod.mk.injEq] at same
    obtain ⟨⟨line, column⟩, stopLine, stopColumn⟩ := same
    rw [renderRange, renderRange, line, column, stopLine, stopColumn]

/-- A character of a range is one of a number, a colon or a hyphen. -/
theorem notMem_renderRange {c : Char} (other : c.isDigit = false) (minus : c ≠ '-') (colon : c ≠ ':')
    (s : Span) : c ∉ s.renderRange.toList := by
  have number (n : Int64) : c ∉ (toString n).toList := Text.notMem_toString other minus
  have place (line column : Int64) : c ∉ placeChars line column := by
    rw [placeChars, List.mem_append, List.mem_cons]
    rintro (mem | rfl | mem)
    · exact number line mem
    · exact colon rfl
    · exact number column mem
  rw [toList_renderRange, List.mem_append, List.mem_cons]
  rintro (mem | rfl | mem)
  · exact place _ _ mem
  · exact minus rfl
  · unfold endChars at mem
    split at mem
    · exact number _ mem
    · exact place _ _ mem

/-! ## Headings -/

/-- What stands before the range: the base name of the file and a colon, or nothing for no file. -/
def heading (file : String) : List Char :=
  if file != "" then (baseName file).toList ++ [':'] else []

theorem toList_render (s : Span) : s.render.toList = heading s.start.file ++ s.renderRange.toList := by
  unfold render heading
  split
  · simp
  · simp

end Span

end ResourceSafety
