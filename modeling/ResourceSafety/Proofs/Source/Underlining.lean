import Mathlib.Data.Nat.Digits.Defs
import ResourceSafety.Proofs.Source.Compact
import ResourceSafety.Source.Snippet

/-!
# Carets under covered columns

What a snippet prints is told line by line (`Snippet.Prints`).  Each source line is followed by one
marker line if the span covers it, and by none otherwise.

Columns are counted from one, after the bar.  Up to line 9999 the bar of a source line and the one
of its marker line stand in the same place (`Snippet.length_gutter`); a longer number moves its line
to the right.

A marker line is told column by column (`Snippet.Underlines`): there are carets in the covered
columns and nowhere else, the blanks before them repeat the tabs of the source line, and nothing is
behind them.  The model writes so many blanks and then so many carets, and counts with differences
that may be negative.
-/

namespace ResourceSafety.Snippet

/-! ## Columns -/

/-- The character in a column of a line. -/
def charAt? (cs : List Char) (column : Int) : Option Char :=
  if column < 1 then none else cs[(column - 1).toNat]?

/-- The first column of a span on line `n`. -/
def firstColumn (span : Span) (n : Int64) : Int :=
  if n = span.start.line then span.start.column.toInt else 1

/-- The column after the last one of a span on line `n`, which has `length` characters. -/
def stopColumn (span : Span) (n : Int64) (length : Nat) : Int :=
  if n = span.stop.line then span.stop.column.toInt else length + 1

/-- The column is one of the line, from `first` up to `stop`. -/
def Covered (length : Nat) (first stop column : Int) : Prop :=
  first ≤ column ∧ column < stop ∧ column ≤ length

/-- There is a caret under the column: it is covered, or none is covered and it is the first. -/
def Marked (length : Nat) (first stop column : Int) : Prop :=
  Covered length first stop column ∨ column = first ∧ ∀ c, ¬Covered length first stop c

/-- The marker line for the columns of a line from `first` up to `stop`. -/
structure Underlines (line : List Char) (first stop : Int) (marker : List Char) : Prop where
  carets : ∀ column, charAt? marker column = some '^' ↔ Marked line.length first stop column
  blanks : ∀ column, 1 ≤ column → column < first →
    charAt? marker column = some (if charAt? line column = some '\t' then '\t' else ' ')
  bare : ∀ column, first ≤ column → ¬Marked line.length first stop column →
    charAt? marker column = none

/-- The carets are one run. -/
theorem marked_iff {length : Nat} {first stop column : Int} :
    Marked length first stop column ↔
      first ≤ column ∧ column < first + caretCount length first stop := by
  have none_iff : (∀ c, ¬Covered length first stop c) ↔ ¬(first < stop ∧ first ≤ length) := by
    constructor
    · exact fun none within => none first ⟨Int.le_refl _, within⟩
    · rintro none c ⟨from_, upTo, there⟩
      omega
  rw [Marked, none_iff, Covered, caretCount]
  omega

theorem length_indent (width : Nat) (cs : List Char) : (indent width cs).length = width := by
  induction width generalizing cs with
  | zero => rfl
  | succ width ih => cases cs <;> simp [indent, ih]

theorem getElem?_indent {width i : Nat} (before : i < width) (cs : List Char) :
    (indent width cs)[i]? = some (if cs[i]? = some '\t' then '\t' else ' ') := by
  induction width generalizing cs i with
  | zero => cases before
  | succ width ih =>
    cases i with
    | zero => cases cs <;> simp [indent]
    | succ i =>
      have before := Nat.lt_of_succ_lt_succ before
      cases cs with
      | nil => simpa [indent] using ih before []
      | cons c cs => simpa [indent] using ih before cs

theorem toList_marker (line : String) (first stop : Int) : (marker line first stop).toList =
    indent (first - 1).toNat line.toList ++
      List.replicate (caretCount line.toList.length first stop) '^' := by
  simp [marker]

section

variable {line : String} {first stop column : Int}

theorem charAt?_marker_before (least : 1 ≤ column) (before : column < first) :
    charAt? (marker line first stop).toList column =
      some (if charAt? line.toList column = some '\t' then '\t' else ' ') := by
  have inside : (column - 1).toNat < (first - 1).toNat := by omega
  have there : ¬column < 1 := by omega
  rw [charAt?, charAt?, if_neg there, if_neg there, toList_marker,
    List.getElem?_append_left (by rwa [length_indent]), getElem?_indent inside]

theorem charAt?_marker_behind (positive : 1 ≤ first) (behind : first ≤ column) :
    charAt? (marker line first stop).toList column =
      if column < first + caretCount line.toList.length first stop then some '^' else none := by
  have there : ¬column < 1 := by omega
  rw [charAt?, if_neg there, toList_marker,
    List.getElem?_append_right (by rw [length_indent]; omega), List.getElem?_replicate,
    length_indent]
  congr 1
  simp only [eq_iff_iff]
  omega

/-- The marker line that is written is the one for the columns. -/
theorem underlines_marker (positive : 1 ≤ first) :
    Underlines line.toList first stop (marker line first stop).toList := by
  refine ⟨fun column => ?_, fun column => charAt?_marker_before, fun column behind bare => ?_⟩
  · rw [marked_iff]
    by_cases behind : first ≤ column
    · rw [charAt?_marker_behind positive behind]
      simp [behind]
    · refine iff_of_false (fun caret => ?_) fun marked => behind marked.1
      by_cases least : 1 ≤ column
      · rw [charAt?_marker_before least (Int.not_le.mp behind)] at caret
        split at caret <;> cases caret
      · rw [charAt?, if_pos (Int.not_le.mp least)] at caret
        cases caret
  · rw [charAt?_marker_behind positive behind, if_neg]
    exact fun less => bare (marked_iff.mpr ⟨behind, less⟩)

end

/-! ## Lines -/

/-- What is printed for the lines of a text with the given numbers.  A line of the span is followed
by one marker line, and any other by none. -/
inductive Prints (span : Span) (lines : List String) : List Int64 → List String → Prop
  | done : Prints span lines [] []
  | plain {n : Int64} {line : String} {ns : List Int64} {printed : List String} :
    lines[n.toInt.toNat - 1]? = some line → ¬(span.start.line ≤ n ∧ n ≤ span.stop.line) →
    Prints span lines ns printed →
    Prints span lines (n :: ns) ((gutter n ++ " | " ++ line) :: printed)
  | marked {n : Int64} {line marker : String} {ns : List Int64} {printed : List String} :
    lines[n.toInt.toNat - 1]? = some line → span.start.line ≤ n → n ≤ span.stop.line →
    Underlines line.toList (firstColumn span n) (stopColumn span n line.length) marker.toList →
    Prints span lines ns printed →
    Prints span lines (n :: ns) ((gutter n ++ " | " ++ line) :: ("     | " ++ marker) :: printed)

variable {span : Span} {lines : List String}

/-- Numbers of up to four digits are written equally wide. -/
theorem length_gutter {n : Int64} (least : 1 ≤ n) (most : n ≤ 9999) : (gutter n).length = 4 := by
  have low : 1 ≤ n.toInt := Int64.le_iff_toInt_le.mp least
  have high : n.toInt ≤ 9999 := Int64.le_iff_toInt_le.mp most
  obtain ⟨k, value⟩ := Int.eq_ofNat_of_zero_le (Int.le_trans Int.one_nonneg low)
  have digits : (toString n).length ≤ 4 := by
    rw [show toString n = toString n.toInt from rfl, value]
    exact Nat.repr_length k 4 (by decide) (by omega)
  simp only [gutter, String.length_append, String.length_ofList, List.length_replicate]
  omega

theorem newline_notMem_gutter (n : Int64) : '\n' ∉ (gutter n).toList := by
  have digits : '\n' ∉ (toString n).toList := Text.notMem_toString rfl (by decide)
  simp [gutter, digits]

theorem newline_notMem_indent (width : Nat) (cs : List Char) : '\n' ∉ indent width cs := by
  intro mem
  obtain ⟨i, there⟩ := List.mem_iff_getElem?.mp mem
  have inside : i < width := by
    rw [← length_indent width cs]
    exact (List.getElem?_eq_some_iff.mp there).1
  rw [getElem?_indent inside] at there
  split at there <;> cases there

theorem newline_notMem_marker (line : String) (first stop : Int) :
    '\n' ∉ (marker line first stop).toList := by
  rw [toList_marker, List.mem_append, not_or]
  exact ⟨newline_notMem_indent _ _, by simp⟩

theorem lineAt_eq {n : Int64} {line : String} (least : 1 ≤ n)
    (there : lines[n.toInt.toNat - 1]? = some line) : lineAt lines n = line := by
  rw [lineAt, if_neg (Int64.not_lt.mpr least), there]
  rfl

theorem renderLine_plain {n : Int64} (line : String)
    (outside : ¬(span.start.line ≤ n ∧ n ≤ span.stop.line)) :
    renderLine span n line = gutter n ++ " | " ++ line ++ "\n" := by
  rw [renderLine, if_neg (by simpa using outside)]

theorem renderLine_marked {n : Int64} (line : String)
    (inside : span.start.line ≤ n ∧ n ≤ span.stop.line) :
    renderLine span n line = gutter n ++ " | " ++ line ++ "\n" ++
      ("     | " ++ marker line (firstColumn span n) (stopColumn span n line.length) ++ "\n") := by
  rw [renderLine, if_pos (by simpa using inside), ← String.append_assoc, ← String.append_assoc]
  rfl

theorem firstColumn_pos (placed : 0 < span.start.column) (n : Int64) : 1 ≤ firstColumn span n := by
  unfold firstColumn
  split
  · exact Int64.lt_iff_toInt_lt.mp placed
  · exact Int.le_refl 1

/-- The lines that are printed for one line, in front of those for others. -/
theorem exists_prints_line (placed : 0 < span.start.column) (free : ∀ l ∈ lines, '\n' ∉ l.toList)
    {n : Int64} (least : 1 ≤ n) (most : n.toInt ≤ lines.length) :
    ∃ own, renderLine span n (lineAt lines n) = String.join (own.map (· ++ "\n")) ∧
      (∀ l ∈ own, '\n' ∉ l.toList) ∧
      ∀ ns printed, Prints span lines ns printed →
        Prints span lines (n :: ns) (own ++ printed) := by
  have least' : 1 ≤ n.toInt := Int64.le_iff_toInt_le.mp least
  obtain ⟨line, there⟩ : ∃ line, lines[n.toInt.toNat - 1]? = some line :=
    ⟨_, List.getElem?_eq_getElem (by omega)⟩
  have source : '\n' ∉ (gutter n ++ " | " ++ line).toList := by
    simp [newline_notMem_gutter, free line (List.mem_of_getElem? there)]
  rw [lineAt_eq least there]
  by_cases inside : span.start.line ≤ n ∧ n ≤ span.stop.line
  · refine ⟨[gutter n ++ " | " ++ line,
      "     | " ++ marker line (firstColumn span n) (stopColumn span n line.length)], ?_, ?_,
      fun ns printed prints =>
        .marked there inside.1 inside.2 (underlines_marker (firstColumn_pos placed n)) prints⟩
    · rw [renderLine_marked line inside]
      simp
    · have carets := newline_notMem_marker line (firstColumn span n) (stopColumn span n line.length)
      refine List.forall_mem_cons.mpr ⟨source, ?_⟩
      simpa using carets
  · refine ⟨[gutter n ++ " | " ++ line], ?_, ?_,
      fun ns printed prints => .plain there inside prints⟩
    · rw [renderLine_plain line inside]
      simp
    · simpa using source

theorem exists_prints (placed : 0 < span.start.column) (free : ∀ l ∈ lines, '\n' ∉ l.toList)
    {ns : List Int64} (inside : ∀ n ∈ ns, 1 ≤ n ∧ n.toInt ≤ lines.length) :
    ∃ printed, String.join (ns.map fun n => renderLine span n (lineAt lines n)) =
        String.join (printed.map (· ++ "\n")) ∧
      (∀ l ∈ printed, '\n' ∉ l.toList) ∧ Prints span lines ns printed := by
  induction ns with
  | nil => exact ⟨[], rfl, by simp, .done⟩
  | cons n ns ih =>
    obtain ⟨⟨least, most⟩, inside⟩ := List.forall_mem_cons.mp inside
    obtain ⟨printed, text, single, prints⟩ := ih inside
    obtain ⟨own, first, singleOwn, front⟩ := exists_prints_line placed free least most
    refine ⟨own ++ printed, ?_, fun l mem => (List.mem_append.mp mem).elim (singleOwn l) (single l),
      front ns printed prints⟩
    rw [List.map_cons, String.join_cons, text, first, List.map_append, String.join_append]

/-! ## Numbers -/

/-- A number between one and a 64-bit number is one. -/
theorem toInt_ofInt_of_le {k : Int} {most : Int64} (least : 1 ≤ k) (le : k ≤ most.toInt) :
    (Int64.ofInt k).toInt = k := by
  have high := most.toInt_lt
  exact Int64.toInt_ofInt_of_le (by omega) (by omega)

/-- The numbers of a snippet are in order, and they are all between two bounds. -/
theorem lineNumbers_spec (span : Span) (context : Int64) (count : Nat) :
    (lineNumbers span context count).Pairwise (· < ·) ∧
      ∀ n, n ∈ lineNumbers span context count ↔
        max 1 (span.start.line - context).toInt ≤ n.toInt ∧
          n.toInt ≤ min (count : Int) (span.stop.line + context).toInt := by
  rw [lineNumbers]
  have least : 1 ≤ max 1 (span.start.line - context).toInt := Int.le_max_left _ _
  have most : min (count : Int) (span.stop.line + context).toInt ≤ _ := Int.min_le_right _ _
  generalize max 1 (span.start.line - context).toInt = first at least ⊢
  generalize min (count : Int) (span.stop.line + context).toInt = last at most ⊢
  have value {i : Nat} (mem : i ∈ List.range (last - first + 1).toNat) :
      (Int64.ofInt (first + i)).toInt = first + i := by
    have inside := List.mem_range.mp mem
    exact toInt_ofInt_of_le (by omega) (by omega : first + i ≤ (span.stop.line + context).toInt)
  constructor
  · rw [List.pairwise_map]
    refine List.pairwise_lt_range.imp_of_mem fun mi mj less => ?_
    rw [Int64.lt_iff_toInt_lt, value mi, value mj]
    omega
  · intro n
    rw [List.mem_map]
    constructor
    · rintro ⟨i, mem, rfl⟩
      have inside := List.mem_range.mp mem
      rw [value mem]
      omega
    · rintro ⟨from_, upTo⟩
      refine ⟨(n.toInt - first).toNat, List.mem_range.mpr (by omega), ?_⟩
      rw [show first + ((n.toInt - first).toNat : Int) = n.toInt by omega, Int64.ofInt_toInt]

theorem nonneg_context (context : Int64) : 0 ≤ max context 0 := by
  show 0 ≤ if context ≤ 0 then 0 else context
  split
  next => exact Int64.le_refl 0
  next positive => exact Int64.le_of_lt (Int64.not_le.mp positive)

/-- A context that is not negative is taken off without wrapping. -/
theorem toInt_sub_context {line context : Int64} (placed : 0 < line) (wide : 0 ≤ context) :
    (line - context).toInt = line.toInt - context.toInt := by
  have high := line.toInt_lt
  have low := context.toInt_lt
  rw [Int64.lt_iff_toInt_lt] at placed
  rw [Int64.le_iff_toInt_le] at wide
  have zero : (0 : Int64).toInt = 0 := rfl
  rw [Int64.toInt_sub]
  exact Int.bmod_eq_of_le (by omega) (by omega)

/-! ## Snippets -/

/-- What is shown of a text: the lines `printed`, for the lines with the numbers `ns`. -/
structure Excerpt (text : String) (context : Int64) (span : Span) (shown : String)
    (lines : List String) (ns : List Int64) (printed : List String) : Prop where
  nonempty : lines ≠ []
  text : "\n".intercalate lines = text
  divided : ∀ l ∈ lines, '\n' ∉ l.toList
  shown : shown = String.join (printed.map (· ++ "\n"))
  single : ∀ l ∈ printed, '\n' ∉ l.toList
  prints : Prints span lines ns printed
  ordered : ns.Pairwise (· < ·)
  /-- The lines are those in the span and up to `context` lines around it.  The sum wraps. -/
  numbers : ∀ n, n ∈ ns ↔ 1 ≤ n ∧ n.toInt ≤ lines.length ∧
    span.start.line.toInt - (max context 0).toInt ≤ n.toInt ∧ n ≤ span.stop.line + max context 0

/-- The snippet of a valid span of a known text shows lines of the text, and under each line of the
span carets for the covered columns. -/
theorem exists_excerpt {sources : Sources} {span : Span} {text : String} (context : Int64)
    (valid : span.isValid = true) (registered : sources.lookup span.start.file = some text) :
    ∃ lines ns printed,
      Excerpt text context span (snippet sources context span) lines ns printed := by
  have placed := Span.placed_of_isValid valid
  have divided : ∀ l ∈ sourceLines text, '\n' ∉ l.toList := fun l => Text.notMem_of_mem_parts
  obtain ⟨ordered, between⟩ :=
    lineNumbers_spec span (max context 0) (sourceLines text).length
  have numbers : ∀ n, n ∈ lineNumbers span (max context 0) (sourceLines text).length ↔
      1 ≤ n ∧ n.toInt ≤ (sourceLines text).length ∧
        span.start.line.toInt - (max context 0).toInt ≤ n.toInt ∧
        n ≤ span.stop.line + max context 0 := by
    intro n
    have one : (1 : Int64).toInt = 1 := rfl
    rw [between, toInt_sub_context placed.startLine (nonneg_context context),
      Int64.le_iff_toInt_le, Int64.le_iff_toInt_le, one]
    omega
  obtain ⟨printed, written, single, prints⟩ := exists_prints placed.startColumn divided fun n mem =>
    ⟨((numbers n).mp mem).1, ((numbers n).mp mem).2.1⟩
  refine ⟨sourceLines text, _, printed, Text.parts_ne_nil, Text.intercalate_parts '\n' text,
    divided, ?_, single, prints, ordered, numbers⟩
  rw [snippet, valid, registered, ← written]
  rfl

/-- The second line of the text is covered from its second column on, after a tab, and the third is
empty. -/
theorem exists_excerpt_tab :
    let sources : Sources := [("m.oz", "fn\n\té = 1\n\nend")]
    let span : Span := ⟨⟨"m.oz", 2, 2, 0⟩, ⟨"m.oz", 3, 4, 0⟩⟩
    let shown := "   1 | fn\n   2 | \té = 1\n     | \t^^^^^\n   3 | \n     | ^\n   4 | end\n"
    span.isValid = true ∧ sources.lookup "m.oz" = some "fn\n\té = 1\n\nend" ∧
      snippet sources 1 span = shown ∧
      ∃ lines ns printed, Excerpt "fn\n\té = 1\n\nend" 1 span shown lines ns printed := by
  intro sources span shown
  have valid : span.isValid = true := by decide
  have registered : sources.lookup "m.oz" = some "fn\n\té = 1\n\nend" := by decide
  have text : snippet sources 1 span = shown := by decide
  exact ⟨valid, registered, text, text ▸ exists_excerpt 1 valid registered⟩

end ResourceSafety.Snippet
