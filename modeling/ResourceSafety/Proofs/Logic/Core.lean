import Mathlib.Data.List.Pairwise
import ResourceSafety.Proofs.Logic.Requests

/-!
# Cores

A goal that cannot hold comes with a core: the names of some facts of the session.  They are the
facts whose guards the SAT solver failed on, since every guard belongs to one entry of the log
(`BitBlaster.Asserts.eq_of_guard`).  So no interpretation makes those facts and the goal true
(`BitBlaster.Answered.exists_core`), whenever failed assumptions are refuted by the clauses.
-/

namespace ResourceSafety.Logic.BitBlaster

variable {b c : BitBlaster} {log : List Entry} {sat : SatSolver} {goal : Formula Term} {l : Literal}

/-- A guard belongs to one entry of the log. -/
theorem Asserts.eq_of_guard (asserts : b.Asserts log) {e e' : Entry} (he : e ∈ log) (he' : e' ∈ log)
    {fact fact' : NamedFact} (h : e.1 = some fact) (h' : e'.1 = some fact')
    (same : fact.guard = fact'.guard) : e = e' := by
  have apart := asserts.apart
  rw [asserts.facts, List.Nodup, List.pairwise_map, List.pairwise_filterMap] at apart
  by_contra other
  have : Std.Symm fun e e' : Entry => ∀ fact, e.1 = some fact → ∀ fact', e'.1 = some fact' →
      fact.guard.var ≠ fact'.guard.var :=
    ⟨fun _ _ differ fact h fact' h' eq => differ fact' h' fact h eq.symm⟩
  exact apart.forall he he' other fact h fact' h' (congrArg Literal.var same)

/-- A core names the facts whose guards failed. -/
theorem Asserts.exists_core (asserts : b.Asserts log) (failed : List Literal) :
    ∃ kept : List (NamedFact × Formula Term), (∀ k ∈ kept, (some k.1, k.2) ∈ log) ∧
      b.core failed = kept.map (·.1.name) ∧
      ∀ e ∈ log, ∀ fact, e.1 = some fact → fact.guard ∈ failed → (fact, e.2) ∈ kept := by
  induction failed with
  | nil => exact ⟨[], List.forall_mem_nil _, rfl, fun _ _ _ _ h => absurd h List.not_mem_nil⟩
  | cons m failed ih =>
      obtain ⟨kept, listed, names, blamed⟩ := ih
      unfold core at names ⊢
      cases found : b.facts.reverse.find? (·.guard == m) with
      | none =>
          refine ⟨kept, listed, ?_, fun e he fact h hm => ?_⟩
          · rw [List.filterMap_cons, factName?, found]
            exact names
          · obtain rfl | hm := List.mem_cons.mp hm
            · have mem := List.mem_reverse.mpr (asserts.mem_facts he h)
              exact absurd (beq_self_eq_true _) (List.find?_eq_none.mp found fact mem)
            · exact blamed e he fact h hm
      | some fact =>
          have mem := List.mem_reverse.mp (List.mem_of_find?_eq_some found)
          have guard := List.find?_some found
          rw [asserts.facts] at mem
          obtain ⟨⟨_, f⟩, he, rfl⟩ := List.mem_filterMap.mp mem
          refine ⟨(fact, f) :: kept, List.forall_mem_cons.mpr ⟨he, listed⟩, ?_, fun e' he' => ?_⟩
          · rw [List.filterMap_cons, factName?, found, names]
            rfl
          · intro fact' h hm
            obtain rfl | hm := List.mem_cons.mp hm
            · have same := asserts.eq_of_guard he' he h rfl (beq_iff_eq.mp guard).symm
              subst same
              obtain rfl : fact = fact' := Option.some.inj h
              exact List.mem_cons_self
            · exact List.mem_cons_of_mem _ (blamed e' he' fact' h hm)

/-- The core of a goal names facts that the goal cannot hold with, as long as all facts have
names. -/
theorem Answered.exists_core {names : List String} (h : b.Answered goal l (.unsat names) c)
    (faithful : b.Faithful sat log) (cores : sat.CoresRefute) (named : ∀ e ∈ log, e.1 ≠ none) :
    ∃ kept : List (NamedFact × Formula Term), (∀ k ∈ kept, (some k.1, k.2) ∈ log) ∧
      names = kept.map (·.1.name) ∧
      ¬Satisfiable (kept.map (·.2.reading) ++ [goal.reading]) := by
  have later := faithful.grows h.sound h.grows
  have verdict := h.verdict
  rcases answer : (c.guarded l).ask c.nextGuard with v | failed | _
  · rw [answer] at verdict
    cases verdict
  · rw [answer] at verdict
    obtain ⟨kept, listed, names', blamed⟩ := later.asserts.exists_core failed
    refine ⟨kept, listed, (Verdict.unsat.inj verdict).trans names', ?_⟩
    rintro ⟨i, holds⟩
    obtain ⟨facts, goalHolds⟩ := List.forall_mem_append.mp holds
    refine later.asserts.refutes h.sound h.expresses (later.solver ▸ cores) answer
      (fun e he unnamed => absurd unnamed (named e he)) (fun e he fact mem failed => ?_)
      (goalHolds _ List.mem_cons_self)
    exact facts _ (List.mem_map_of_mem (blamed e he fact mem failed))
  · rw [answer] at verdict
    cases verdict

end ResourceSafety.Logic.BitBlaster
