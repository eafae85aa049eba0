import ResourceSafety.Proofs.Checker.Covering

/-!
# Branches from beginning to end

While the arms of a branch are walked, its fork holds what was known at the beginning and
at the ends of the finished arms.  All of these are moments of units with one outline
(`Opened`), and so every one of them can be rewound to and joined.
-/

namespace ResourceSafety.CompilationUnit

open Logic (Action Solver)
open Ownership (Record)

variable {σ : Type} {e u v p a : CompilationUnit σ} {f : Fork} {outer : List Fork}
  {R : Record → Record → Prop} {T : Violation → Prop}

/-! ## Records inside scopes -/

theorem records_beginFunction {name : String} {site : Span} {x : Unit}
    (h : (beginFunction name site).perform u = (.ok x, v)) : v.records = [[]] :: u.records := by
  rw [records, (beginFunction_ok h).bodies]
  rfl

theorem records_enterBlock {site : Span} {x : Unit} (h : (enterBlock site).perform u = (.ok x, v)) :
    ∃ s rest, u.records = s :: rest ∧ v.records = ([] :: s) :: rest := by
  refine ⟨u.current.tracker.cells.contents, u.bodies.tail.map fun b => b.tracker.cells.contents,
    ?_, ?_⟩
  · rw [records, bodies_eq_cons u]
    rfl
  · rw [records, (enterBlock_ok h).bodies]
    rfl

theorem Turns.records {c : Capability.Context} {found : List Violation}
    (h : u.Turns v u.bodies c found) : v.records = u.records := by
  rw [CompilationUnit.records, h.bodies]
  rfl

/-! ## Forks -/

/-- The branch that began with `e` is open in `u`, with `f` as its fork. -/
structure Opened (e u : CompilationUnit σ) (f : Fork) (outer : List Fork) : Prop where
  forks : u.forks = f :: outer
  entry : f.entry = e.now
  steady : e.Steady u
  arms : ∀ m ∈ f.arms, ∃ a : CompilationUnit σ, m = a.now ∧ a.Numbered ∧ a.outline = e.outline

theorem opened_beginBranch {x : Unit} (n : u.Numbered) (h : beginBranch.perform u = (.ok x, v)) :
    u.Opened v { entry := u.now } u.forks := by
  obtain ⟨steady, forks, -, -⟩ := steady_beginBranch n h
  exact ⟨forks, rfl, steady, fun m mem => absurd mem List.not_mem_nil⟩

theorem records_beginBranch {x : Unit} (n : u.Numbered) (h : beginBranch.perform u = (.ok x, v)) :
    v.records = u.records := by
  obtain ⟨-, -, bodies, -⟩ := steady_beginBranch n h
  rw [records, bodies]
  rfl

namespace Opened

theorem numbered (h : e.Opened u f outer) : u.Numbered := h.steady.numbered

/-- An arm is walked that gives back the outline it began with. -/
theorem walk (h : e.Opened u f outer) (kept : u.Kept v) (same : v.outline = u.outline) :
    e.Opened v f outer :=
  ⟨kept.forks.trans h.forks, h.entry, h.steady.trans (kept.steady same), h.arms⟩

/-- The finished arm is added to those before it. -/
theorem arms_finishArm (h : e.Opened u f outer) :
    (Fork.finishArm f u).arms = f.arms ++ [u.now] := by
  have ids : f.entry.bodies.map Prod.fst = u.bodies.map (·.id) := by
    rw [map_id_of_outline (congrArg UnitOutline.bodies h.steady.outline), h.entry]
    simp [now, moment, Function.comp_def]
  simp only [Fork.finishArm, ids, now]

theorem alike_finishArm (h : e.Opened u f outer) : ∀ m ∈ (Fork.finishArm f u).arms,
    ∃ a : CompilationUnit σ, m = a.now ∧ a.Numbered ∧ a.outline = e.outline := by
  intro m mem
  rw [h.arms_finishArm] at mem
  obtain mem | mem := List.mem_append.mp mem
  · exact h.arms m mem
  · exact ⟨u, List.mem_singleton.mp mem, h.numbered, h.steady.outline⟩

theorem nextArm (h : e.Opened u f outer) {x : Unit} (hu : nextArm.perform u = (.ok x, v)) :
    e.Opened v (Fork.finishArm f u) outer ∧ u.Steady v := by
  obtain ⟨f', rest, forks, forks', steady⟩ := steady_nextArm h.numbered hu
  rw [h.forks, List.cons.injEq] at forks
  obtain ⟨rfl, rfl⟩ := forks
  exact ⟨⟨forks', h.entry, h.steady.trans steady, h.alike_finishArm⟩, steady⟩

theorem endBranch (h : e.Opened u f outer) {site : Span} {x : Unit}
    (hu : (endBranch site).perform u = (.ok x, v)) : v.forks = outer ∧ u.Steady v := by
  obtain ⟨f', rest, forks, forks', steady⟩ := steady_endBranch h.numbered hu
  rw [h.forks, List.cons.injEq] at forks
  exact ⟨forks.2 ▸ forks', steady⟩

/-- The next arm begins with the records that the branch began with. -/
theorem records_nextArm (h : e.Opened u f outer) (n : e.Numbered) {x : Unit}
    (hu : CompilationUnit.nextArm.perform u = (.ok x, v)) : v.records = e.records := by
  obtain ⟨f', rest, c, forks, -, turns⟩ := nextArm_ok hu
  rw [h.forks, List.cons.injEq] at forks
  obtain ⟨rfl, rfl⟩ := forks
  refine records_eq_of_covers ?_
  rw [turns.bodies, h.entry]
  refine covers_rewound n h.steady.outline (List.forall₂_same.mpr fun b _ => ?_)
  exact ⟨rfl, rfl, Cells.Covers.same _⟩

/-- The next arm covers what the branch covered at its beginning. -/
theorem covers_nextArm (h : e.Opened u f outer) (n : e.Numbered) (covers : e.Covers R T p)
    {x : Unit} (hu : CompilationUnit.nextArm.perform u = (.ok x, v)) : v.Covers R T p :=
  covers.nextArm n h.steady.outline h.steady.registry h.forks h.entry hu

/-- The end of the branch covers what one of the arms that meet there covers. -/
theorem covers_endBranch (h : e.Opened u f outer) (n : e.Numbered) (na : a.Numbered)
    (joins : a.Joins R) (same : a.outline = e.outline) (registry : a.registry = e.registry)
    (covers : a.Covers R T p) (mem : a.now ∈ meeting (Fork.finishArm f u)) {site : Span} {x : Unit}
    (hu : (CompilationUnit.endBranch site).perform u = (.ok x, v)) : v.Covers R T p := by
  refine covers.endBranch na joins (same.trans h.steady.outline.symm)
    (h.steady.registry.trans registry.symm) h.forks ?_ mem hu
  intro m mm
  rw [h.steady.outline]
  simp only [meeting] at mm
  split at mm
  · obtain mm | mm := List.mem_append.mp mm
    · exact h.alike_finishArm m mm
    · rw [List.mem_singleton.mp mm]
      exact ⟨e, h.entry, n, rfl⟩
  · exact h.alike_finishArm m mm

/-- Every finished arm meets the others. -/
theorem mem_meeting {m : Moment} (mem : m ∈ (Fork.finishArm f u).arms) :
    m ∈ meeting (Fork.finishArm f u) := by
  simp only [meeting]
  split
  · exact List.mem_append_left _ mem
  · exact mem

/-- A branch with a single arm may be passed over. -/
theorem entry_mem_meeting (h : e.Opened u f outer) (single : f.arms = []) :
    e.now ∈ meeting (Fork.finishArm f u) := by
  have one : (Fork.finishArm f u).arms.length = 1 := by
    rw [h.arms_finishArm, single]
    rfl
  simp only [meeting, one, if_true]
  exact List.mem_append_right _ (List.mem_singleton.mpr h.entry.symm)

end Opened

end ResourceSafety.CompilationUnit
