import ResourceSafety.Logic.ClauseLearning

/-!
# SAT solvers that can be relied on

A session that decides in process is as good as its SAT solver.  The theory of sessions asks three
things of a solver, one by one where they are needed.

* A valuation that it returns makes the clauses and the assumptions true (`SatSolver.ModelsHold`).
* Failed assumptions are assumptions that cannot all hold with the clauses
  (`SatSolver.CoresRefute`).
* It never gives up (`SatSolver.Answers`).

The solver that comes with the library has all three (`clauseLearning_decides`).  Its search is not
looked into for that.  A candidate was tried out, a refutation was derived, and where the search has
neither, all valuations are tried.
-/

namespace ResourceSafety.Logic

namespace SatSolver

/-- Returned valuations make clauses and assumptions true. -/
def ModelsHold (s : SatSolver) : Prop :=
  ∀ limit cs assumptions v, s.solve limit cs assumptions = .satisfiable v →
    (∀ c ∈ cs, c.holds v = true) ∧ ∀ l ∈ assumptions, l.holds v = true

/-- Failed assumptions are assumptions, and do not all hold with the clauses. -/
def CoresRefute (s : SatSolver) : Prop :=
  ∀ limit cs assumptions failed, s.solve limit cs assumptions = .unsatisfiable failed →
    (∀ l ∈ failed, l ∈ assumptions) ∧
      ∀ v : Valuation, (∀ c ∈ cs, c.holds v = true) → ¬∀ l ∈ failed, l.holds v = true

/-- There is always an answer. -/
def Answers (s : SatSolver) : Prop :=
  ∀ limit cs assumptions, s.solve limit cs assumptions ≠ .undecided

/-- The solver is sound and complete. -/
structure Decides (s : SatSolver) : Prop where
  models : s.ModelsHold
  cores : s.CoresRefute
  answers : s.Answers

end SatSolver

/-! ## Trying all valuations -/

namespace Valuation

variable {cs : List Clause} {xs : List Nat} {u v w : Valuation}

theorem holds_of_find? (h : find? cs xs v = some w) : ∀ c ∈ cs, c.holds w = true := by
  induction xs generalizing v with
  | nil =>
      unfold find? at h
      split at h
      next all =>
        cases h
        exact List.all_eq_true.mp all
      next => cases h
  | cons x xs ih =>
      unfold find? at h
      split at h
      next found =>
        cases h
        exact ih found
      next => exact ih h

/-- Where nothing is found, there is nothing to find. -/
theorem not_holds_of_find? (h : find? cs xs v = none) (same : ∀ x, x ∉ xs → u x = v x) :
    ¬∀ c ∈ cs, c.holds u = true := by
  induction xs generalizing v with
  | nil =>
      obtain rfl : u = v := funext fun x => same x List.not_mem_nil
      unfold find? at h
      split at h
      next => cases h
      next fails => exact fun holds => fails (List.all_eq_true.mpr holds)
  | cons x xs ih =>
      have still (b : Bool) (hb : u x = b) : ∀ y, y ∉ xs → u y = v.withValue x b y := by
        intro y hy
        unfold withValue
        split
        next eq => rw [eq, hb]
        next ne => exact same y (fun mem => (List.mem_cons.mp mem).elim ne hy)
      unfold find? at h
      split at h
      next => cases h
      next isNone =>
        cases hb : u x with
        | false => exact ih isNone (still false hb)
        | true => exact ih h (still true hb)

end Valuation

namespace ClauseLearning

variable {cs : List Clause} {assumptions : List Literal}

theorem var_mem_occurring {c : Clause} (hc : c ∈ cs) {l : Literal} (hl : l ∈ c) :
    l.var ∈ occurring cs :=
  List.mem_eraseDups.mpr (List.mem_map_of_mem (List.mem_flatten.mpr ⟨c, hc, hl⟩))

/-- Clauses that hold in some valuation hold in one that is tried. -/
theorem not_holds_of_exhausted (h : Valuation.find? cs (occurring cs) (fun _ => false) = none)
    (v : Valuation) : ¬∀ c ∈ cs, c.holds v = true := by
  intro holds
  refine Valuation.not_holds_of_find? (u := fun x => decide (x ∈ occurring cs) && v x) h ?_ ?_
  · intro x hx
    rw [decide_eq_false hx, Bool.false_and]
  · intro c hc
    obtain ⟨l, hl, holds⟩ := Clause.holds_iff.mp (holds c hc)
    refine Clause.holds_iff.mpr ⟨l, hl, ?_⟩
    rwa [Literal.holds, decide_eq_true (var_mem_occurring hc hl), Bool.true_and]

theorem models_exhaust {v : Valuation} (h : exhaust cs assumptions = .satisfiable v) :
    (∀ c ∈ cs, c.holds v = true) ∧ ∀ l ∈ assumptions, l.holds v = true := by
  unfold exhaust at h
  dsimp only at h
  split at h
  next w found =>
    cases h
    obtain ⟨clauses, units⟩ := List.forall_mem_append.mp (Valuation.holds_of_find? found)
    refine ⟨clauses, fun l hl => ?_⟩
    obtain ⟨m, hm, holds⟩ := Clause.holds_iff.mp (units [l] (List.mem_map_of_mem hl))
    rwa [List.mem_singleton.mp hm] at holds
  next => cases h

theorem refutes_exhaust {failed : List Literal}
    (h : exhaust cs assumptions = .unsatisfiable failed) :
    (∀ l ∈ failed, l ∈ assumptions) ∧
      ∀ v : Valuation, (∀ c ∈ cs, c.holds v = true) → ¬∀ l ∈ failed, l.holds v = true := by
  unfold exhaust at h
  dsimp only at h
  split at h
  next => cases h
  next exhausted =>
    cases h
    refine ⟨fun l hl => hl, fun v holds each => not_holds_of_exhausted exhausted v ?_⟩
    refine List.forall_mem_append.mpr ⟨holds, List.forall_mem_map.mpr fun l hl => ?_⟩
    exact Clause.holds_iff.mpr ⟨l, List.mem_cons_self, each l hl⟩

theorem exhaust_ne_undecided : exhaust cs assumptions ≠ .undecided := by
  unfold exhaust
  dsimp only
  split
  · exact nofun
  · exact nofun

/-! ## Answers of the search -/

theorem models_answer {v : Valuation} (h : answer cs assumptions = .satisfiable v) :
    (∀ c ∈ cs, c.holds v = true) ∧ ∀ l ∈ assumptions, l.holds v = true := by
  unfold answer at h
  split at h
  next w _ =>
    split at h
    next tried =>
      cases h
      rw [Bool.and_eq_true, List.all_eq_true, List.all_eq_true] at tried
      exact tried
    next => exact models_exhaust h
  next c _ =>
    dsimp only at h
    split at h
    next => cases h
    next => exact models_exhaust h
  next => exact models_exhaust h

/-- The negations of a clause that follows cannot all hold. -/
theorem Consequence.refutes (c : Consequence cs) {v : Valuation}
    (holds : ∀ d ∈ cs, d.holds v = true) : ¬∀ l ∈ c.clause.map Literal.negation, l.holds v = true := by
  intro each
  obtain ⟨l, hl, isTrue⟩ := Clause.holds_iff.mp (c.entailed v holds)
  have isFalse := each l.negation (List.mem_map_of_mem hl)
  rw [Literal.holds_negation, isTrue] at isFalse
  cases isFalse

theorem refutes_answer {failed : List Literal} (h : answer cs assumptions = .unsatisfiable failed) :
    (∀ l ∈ failed, l ∈ assumptions) ∧
      ∀ v : Valuation, (∀ c ∈ cs, c.holds v = true) → ¬∀ l ∈ failed, l.holds v = true := by
  unfold answer at h
  split at h
  next w _ =>
    split at h
    next => cases h
    next => exact refutes_exhaust h
  next c _ =>
    dsimp only at h
    split at h
    next assumed =>
      cases h
      refine ⟨fun l hl => ?_, fun v holds => c.refutes holds⟩
      exact List.contains_iff_mem.mp (List.all_eq_true.mp assumed l hl)
    next => exact refutes_exhaust h
  next => exact refutes_exhaust h

theorem answer_ne_undecided : answer cs assumptions ≠ .undecided := by
  unfold answer
  split
  next =>
    split
    next => exact nofun
    next => exact exhaust_ne_undecided
  next =>
    dsimp only
    split
    next => exact nofun
    next => exact exhaust_ne_undecided
  next => exact exhaust_ne_undecided

end ClauseLearning

/-- The solver that comes with the library is sound and complete. -/
theorem clauseLearning_decides : clauseLearning.Decides where
  models _ _ _ _ h := ClauseLearning.models_answer h
  cores _ _ _ _ h := ClauseLearning.refutes_answer h
  answers _ _ _ := ClauseLearning.answer_ne_undecided

end ResourceSafety.Logic
