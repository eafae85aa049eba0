import Mathlib
import ResourceSafety.Proofs.Text.Decimal
import ResourceSafety.Violation

/-!
# The key and the order of findings

The key joins the parts of a finding with bars.  It always tells the kind
(`Violation.kind_eq_of_key_eq`).  Of a finding none of whose parts has a bar in it, it
tells all the parts (`Violation.parts_eq_of_key_eq`).

The report order compares files, lines, columns and kinds, one after the other.  It is the
order of these four taken together (`Violation.comesBefore_iff`), and so it is transitive and
total, and sorting puts findings in it (`Violation.pairwise_sort`).
-/

namespace ResourceSafety

/-- What a request answers with its findings changed, it answers. -/
theorem exists_of_map_ok {ε α β : Type} {x : Except ε α} {f : α → β} {y : β}
    (h : x.map f = .ok y) : ∃ a, x = .ok a ∧ f a = y := by
  cases x with
  | error fault => cases h
  | ok a =>
    cases h
    exact ⟨a, rfl, rfl⟩

/-- A number is written without bars. -/
theorem Int64.bar_notMem_toString (n : Int64) : '|' ∉ (toString n).toList :=
  Text.notMem_toString rfl (by decide)

theorem ViolationKind.ofNumber_number (k : ViolationKind) : ofNumber k.number = k := by
  cases k with
  | other n unnamed => exact dif_pos unnamed
  | _ => rfl

/-- The text of a span is not empty. -/
theorem Span.render_ne_empty (s : Span) : s.render ≠ "" := by
  have colon : ':' ∈ s.render.toList := by
    simp only [render, renderRange]
    split <;> split <;> simp [toString]
  intro empty
  rw [empty] at colon
  cases colon

namespace Violation

/-- A finding that is made against an earlier span names it only if it was set. -/
theorem earlier_of_conflict {v : Violation} {earlier s : Span}
    (made : v.conflict = if earlier.isValid then some earlier else none)
    (h : v.conflict = some s) : s = earlier ∧ earlier.isZero = false := by
  rw [h] at made
  split at made
  next valid =>
    cases made
    refine ⟨rfl, ?_⟩
    by_contra zero
    rw [Bool.not_eq_false, Span.isZero, beq_iff_eq] at zero
    rw [zero] at valid
    exact absurd valid (by decide)
  · cases made

/-- The parts that the key joins. -/
def parts (v : Violation) : List String :=
  [toString v.kind.number, v.binding, v.span.render, (v.conflict.map Span.render).getD "",
    v.threads.1, v.threads.2, v.obligation]

/-- No part has a bar in it. -/
def Legible (v : Violation) : Prop := ∀ part ∈ v.parts, '|' ∉ part.toList

theorem toList_key (v : Violation) :
    v.key.toList = List.intercalate ['|'] (v.parts.map String.toList) := by
  show ("|".intercalate v.parts).toList = _
  rw [String.toList_intercalate]
  rfl

theorem kind_eq_of_key_eq {v w : Violation} (h : v.key = w.key) : v.kind = w.kind := by
  -- The kind is what the key says before its first bar.
  have first (x : Violation) :
      x.key.toList.takeWhile (· != '|') = (toString x.kind.number).toList := by
    have digits : ∀ c ∈ (toString x.kind.number).toList, (c != '|') = true := fun c mem =>
      bne_iff_ne.mpr fun bar => Int64.bar_notMem_toString _ (bar ▸ mem)
    rw [toList_key, parts, List.map_cons, List.map_cons, List.intercalate_cons_cons,
      List.append_assoc, List.takeWhile_append_of_pos digits]
    exact List.append_nil _
  have texts := (first v).symm.trans ((congrArg _ (congrArg String.toList h)).trans (first w))
  have number := Int64.toString_injective (String.toList_injective texts)
  rw [← v.kind.ofNumber_number, number, w.kind.ofNumber_number]

/-- What joins lists is counted in each of them, and once between two of them. -/
theorem count_intercalate (c : Char) : ∀ xss : List (List Char), xss ≠ [] →
    (List.intercalate [c] xss).count c + 1 = (xss.map (List.count c)).sum + xss.length
  | [], nonempty => absurd rfl nonempty
  | [xs], _ => by simp [List.intercalate]
  | xs :: ys :: rest, _ => by
    have ih := count_intercalate c (ys :: rest) (List.cons_ne_nil ys rest)
    rw [List.intercalate_cons_cons, List.count_append, List.count_append, List.count_singleton_self,
      List.map_cons, List.sum_cons, List.length_cons]
    omega

/-- A finding has no bar in its parts when its key has only the bars that join them. -/
theorem legible_iff_count {v : Violation} : v.Legible ↔ v.key.toList.count '|' = 6 := by
  have joined := count_intercalate '|' (v.parts.map String.toList) (List.cons_ne_nil _ _)
  rw [← toList_key, List.length_map, show v.parts.length = 7 from rfl] at joined
  have none : v.Legible ↔ ((v.parts.map String.toList).map (List.count '|')).sum = 0 := by
    simp only [Legible, List.sum_eq_zero_iff, List.forall_mem_map, List.count_eq_zero]
  rw [none]
  omega

/-- Findings with the same key have the same parts, if one of them is without bars. -/
theorem parts_eq_of_key_eq {v w : Violation} (hw : w.Legible) (h : v.key = w.key) :
    v.parts = w.parts := by
  have hv : v.Legible := by
    rw [legible_iff_count, h]
    exact legible_iff_count.mp hw
  have split {x : Violation} (hx : x.Legible) :
      x.key.toList.splitOn '|' = x.parts.map String.toList := by
    rw [toList_key]
    refine List.splitOn_intercalate '|' ?_ (List.cons_ne_nil _ _)
    exact List.forall_mem_map.mpr hx
  have texts := split hv
  rw [h, split hw] at texts
  exact (List.map_injective_iff.mpr fun _ _ => String.toList_injective) texts.symm

end Violation

/-! ## The report order -/

/-- The parts of a position that the order looks at. -/
def Position.rank (p : Position) : List Char ×ₗ ℤ ×ₗ ℤ :=
  toLex (p.file.toList, toLex (p.line.toInt, p.column.toInt))

namespace Position

variable {p q : Position}

theorem compare_eq_eq : p.compare q = .eq ↔ p.rank = q.rank := by
  have file : p.file.toList = q.file.toList ↔ p.file = q.file := String.toList_inj
  simp only [compare, rank, toLex_inj, Prod.mk.injEq, Int64.toInt_inj, file]
  split_ifs <;> simp_all

theorem compare_eq_lt : p.compare q = .lt ↔ p.rank < q.rank := by
  have file : p.file.toList = q.file.toList ↔ p.file = q.file := String.toList_inj
  have text : p.file.toList < q.file.toList ↔ p.file < q.file := Iff.rfl
  simp only [compare, rank, Prod.Lex.toLex_lt_toLex, ← Int64.lt_iff_toInt_lt, Int64.toInt_inj,
    file, text]
  split_ifs with file_ne text_lt line_ne line_lt column_ne column_lt <;> simp_all

end Position

namespace Violation

variable {v w : Violation}

/-- Where a finding stands in a report. -/
def rank (v : Violation) : (List Char ×ₗ ℤ ×ₗ ℤ) ×ₗ ℤ :=
  toLex (v.span.start.rank, v.kind.number.toInt)

/-- The finding starts earlier, or it starts at the same place and its kind does not come
later. -/
def Precedes (v w : Violation) : Prop :=
  v.span.start.compare w.span.start = .lt ∨
    v.span.start.compare w.span.start = .eq ∧ v.kind.number ≤ w.kind.number

theorem precedes_iff : v.Precedes w ↔ v.rank ≤ w.rank := by
  rw [Precedes, rank, rank, Prod.Lex.toLex_le_toLex, Position.compare_eq_lt,
    Position.compare_eq_eq, Int64.le_iff_toInt_le]

theorem comesBefore_iff : v.comesBefore w = true ↔ v.rank < w.rank := by
  rw [rank, rank, Prod.Lex.toLex_lt_toLex, ← Position.compare_eq_lt, ← Position.compare_eq_eq,
    ← Int64.lt_iff_toInt_lt, comesBefore]
  cases v.span.start.compare w.span.start <;> simp

/-- Sorting puts findings in report order. -/
theorem pairwise_sort (vs : List Violation) : (sort vs).Pairwise Precedes := by
  have le (v w : Violation) : (!w.comesBefore v) = true ↔ v.rank ≤ w.rank := by
    rw [Bool.not_eq_true', Bool.eq_false_iff, ne_eq, comesBefore_iff, not_lt]
  refine (List.pairwise_mergeSort (fun x y z => ?_) (fun x y => ?_) vs).imp fun {v w} ordered => ?_
  · rw [le, le, le]
    exact le_trans
  · rw [Bool.or_eq_true, le, le]
    exact le_total _ _
  · exact precedes_iff.mpr ((le v w).mp ordered)

end Violation

end ResourceSafety
