import Mathlib.Logic.Basic
import ResourceSafety.Logic.Formula

/-!
# Formulas by their parts

Formulas hold lists of formulas.  `Formula.induction` is induction on them: a property
that every formula of a junction has is one of the junction.  The functions that
go through formulas are written with a second function for lists; here each of
those is said with the functions of the library.

A formula depends on the values of what it compares, and on nothing else
(`Formula.eval_congr`).
-/

namespace ResourceSafety.Logic.Formula

variable {α β : Type}

/-! ## Induction -/

/-- Induction on formulas. -/
@[elab_as_elim]
theorem induction {P : Formula α → Prop} (compare : ∀ op l r, P (.compare op l r))
    (all : ∀ fs, (∀ f ∈ fs, P f) → P (.all fs)) (any : ∀ fs, (∀ f ∈ fs, P f) → P (.any fs))
    (not : ∀ f, P f → P (.not f)) (truth : ∀ b, P (.truth b)) (f : Formula α) : P f := by
  refine @Formula.rec α P (fun fs => ∀ f ∈ fs, P f) compare all any not truth ?_ ?_ f
  · intro f hf
    cases hf
  · intro f fs ihf ihfs g hg
    rcases List.mem_cons.mp hg with rfl | hg
    · exact ihf
    · exact ihfs g hg

/-! ## Lists of formulas -/

theorem evalAll_eq (v : α → Nat) (fs : List (Formula α)) : evalAll v fs = fs.all (eval v) := by
  induction fs with
  | nil => rfl
  | cons f fs ih => rw [evalAll, ih, List.all_cons]

theorem evalAny_eq (v : α → Nat) (fs : List (Formula α)) : evalAny v fs = fs.any (eval v) := by
  induction fs with
  | nil => rfl
  | cons f fs ih => rw [evalAny, ih, List.any_cons]

theorem mapList_eq (g : α → β) (fs : List (Formula α)) : mapList g fs = fs.map (map g) := by
  induction fs with
  | nil => rfl
  | cons f fs ih => rw [mapList, ih, List.map_cons]

theorem leavesList_eq (fs : List (Formula α)) : leavesList fs = fs.flatMap leaves := by
  induction fs with
  | nil => rfl
  | cons f fs ih => rw [leavesList, ih, List.flatMap_cons]

/-! ## Worth -/

theorem eval_all_iff {v : α → Nat} {fs : List (Formula α)} :
    eval v (.all fs) = true ↔ ∀ f ∈ fs, eval v f = true := by
  rw [eval, evalAll_eq, List.all_eq_true]

theorem eval_any_iff {v : α → Nat} {fs : List (Formula α)} :
    eval v (.any fs) = true ↔ ∃ f ∈ fs, eval v f = true := by
  rw [eval, evalAny_eq, List.any_eq_true]

theorem mem_leaves_all {fs : List (Formula α)} {f : Formula α} {a : α} (hf : f ∈ fs)
    (ha : a ∈ f.leaves) : a ∈ (Formula.all fs).leaves := by
  rw [leaves, leavesList_eq]
  exact List.mem_flatMap.mpr ⟨f, hf, ha⟩

theorem mem_leaves_any {fs : List (Formula α)} {f : Formula α} {a : α} (hf : f ∈ fs)
    (ha : a ∈ f.leaves) : a ∈ (Formula.any fs).leaves :=
  mem_leaves_all hf ha

/-- The worth of a formula depends on the values of what it compares. -/
theorem eval_congr {v w : α → Nat} (f : Formula α) (h : ∀ a ∈ f.leaves, v a = w a) :
    eval v f = eval w f := by
  induction f using Formula.induction with
  | compare op l r =>
      rw [eval, eval, h l (by simp [leaves]), h r (by simp [leaves])]
  | all fs ih =>
      refine Bool.eq_iff_iff.mpr ?_
      rw [eval_all_iff, eval_all_iff]
      exact forall₂_congr fun f hf => by rw [ih f hf fun a ha => h a (mem_leaves_all hf ha)]
  | any fs ih =>
      refine Bool.eq_iff_iff.mpr ?_
      rw [eval_any_iff, eval_any_iff]
      refine exists_congr fun f => and_congr_right fun hf => ?_
      rw [ih f hf fun a ha => h a (mem_leaves_any hf ha)]
  | not f ih => rw [eval, eval, ih h]
  | truth b => rfl

end ResourceSafety.Logic.Formula
