import ResourceSafety.Proofs.Checker.Lockstep
import ResourceSafety.Proofs.Trace.Resolution

/-!
# Soundness on every way through a trace

Checking a trace walks all of its branches and joins what it knows where arms meet.  When
the check has no finding, no resolution of the trace has one that matters.

* Moves: no value is used, moved or borrowed after it was moved
  (`no_moved_value_reached`).  Moving a borrowed value is another matter: a join knows a
  shared borrow by its place alone.
* Lifetimes: no capability is used after it was consumed, and none is lost
  (`no_capability_misused`).

Both rest on one fact, that the walk of the whole trace covers the walk of each of its
resolutions up to the end of the unit (`tolerated_of_resolves`).  It holds of every relation of
records that is sustained along the walk (`tolerated_of_sustains`).
-/

namespace ResourceSafety

open CompilationUnit (bare)
open Logic (Action Solver)
open Ownership (Record)

namespace CompilationUnit

variable {σ : Type} {u v p : CompilationUnit σ} {R : Record → Record → Prop}
  {T : Violation → Prop}

/-! ## The end of a unit -/

variable [Solver σ]

theorem run_closeScopes (gaveUp : Nat → Nat → Bool) (fuel : Nat) (closed : u.current.blocks = [])
    (single : u.functions = []) : (closeScopes gaveUp fuel).run u = (none, u) := by
  cases fuel with
  | zero =>
    rw [closeScopes]
    rfl
  | succ fuel =>
    rw [closeScopes, run_get_bind]
    simp only [closed, single]
    rfl

/-- The end of the solver session is about obligations alone. -/
theorem closeSession_ok (u : CompilationUnit σ) :
    ∃ fault d, closeSession.run u = (fault, { u with discharger := d }) := by
  rw [closeSession, run_get_bind]
  rcases Discharger.close.perform u.discharger with ⟨_ | _, d⟩
  · exact ⟨_, d, rfl⟩
  · exact ⟨_, d, rfl⟩

theorem closeSession_congr (h : u.discharger = v.discharger) :
    (closeSession.run u).1 = (closeSession.run v).1 := by
  rw [closeSession, run_get_bind, run_get_bind, h]
  rcases Discharger.close.perform v.discharger with ⟨_ | _, d⟩ <;> rfl

/-- A unit ends.  What is open is closed, the queued obligations are decided, the last frame is
closed, and the races of the whole unit are looked for.  The faults on the way are joined. -/
theorem finish_ok {gaveUp : Nat → Nat → Bool} {u₁ u₂ : CompilationUnit σ} {inner : Option Fault}
    {queued last : Sweep} (live : u.finished = false)
    (closed : (closeScopes gaveUp u.scopeCount).run u = (inner, u₁))
    (flushed : (flushQueue (gaveUp 0)).run u₁ = (queued, u₂))
    (left : (leaveFrame u.root.span).run u₂ = (last, v)) :
    ((finish gaveUp).run u).1.1.map Report.violations =
        some (Violation.sort (v.collectAll v.capabilities.validate).violations) ∧
      ((finish gaveUp).run u).2.capabilities = v.capabilities ∧
      ((finish gaveUp).run u).1.2 = Fault.join? (inner.toList ++
        (queued.2.map (.within "flush obligations")).toList ++ last.2.toList ++
        (closeSession.run (v.collectAll v.capabilities.validate)).1.toList) := by
  obtain ⟨_, d, ended⟩ := closeSession_ok (v.collectAll v.capabilities.validate)
  rw [finish, run_get_bind, if_neg (by simp [live]), run_bind_of closed, run_bind_of flushed,
    run_bind_of left]
  dsimp only
  rw [run_modify_bind, run_bind_of ended, ended]
  exact ⟨rfl, (turns_collectAll v _).capabilities, rfl⟩

/-- The findings of a unit of which nothing but the root is open. -/
def lastFindings (gaveUp : Nat → Nat → Bool) (u : CompilationUnit σ) : List Violation :=
  let v := ((leaveFrame u.root.span).run ((flushQueue (gaveUp 0)).run u).2).2
  Violation.sort (v.collectAll v.capabilities.validate).violations

theorem finish_closed (live : u.finished = false) (closed : u.current.blocks = [])
    (single : u.functions = []) (gaveUp : Nat → Nat → Bool) :
    ((finish gaveUp).run u).1.1.map Report.violations = some (u.lastFindings gaveUp) :=
  (finish_ok live (run_closeScopes gaveUp _ closed single) rfl rfl).1

omit [Solver σ] in
theorem covers_fresh (name : String) (registry : Registry) (config : CheckerConfig) (run : String)
    (opening : Bool → Except Fault σ) : (fresh name registry config run opening).Covers R T
      (fresh name registry config run opening) where
  bodies := .cons ⟨rfl, rfl, .cons .nil .nil⟩ .nil
  held := .cons .nil .nil
  registry := rfl
  tolerated := fun _ mem => absurd mem List.not_mem_nil

omit [Solver σ] in
/-- When a whole trace was walked, nothing but the root is open. -/
theorem closed_of_kept {name : String} {registry : Registry} {config : CheckerConfig} {run : String}
    {opening : Bool → Except Fault σ} (h : (fresh name registry config run opening).Kept u) :
    u.current.blocks = [] ∧ u.functions = [] ∧ u.finished = false ∧
      u.capabilities.frames = [0] := by
  have around := h.around
  rw [outline_eq_cons u] at around
  simp only [UnitOutline.around, List.head?_cons, Option.map_some, List.tail_cons,
    Prod.mk.injEq] at around
  obtain ⟨first, outer, frames, -⟩ := around
  refine ⟨?_, ?_, h.finished, frames⟩
  · have depth := congrArg (Option.map Prod.fst) first
    exact List.length_eq_zero_iff.mp (Option.some.inj depth)
  · have none : u.bodies.tail = [] := List.map_eq_nil_iff.mp outer
    have length := length_functions u
    rw [bodies_eq_cons u, none] at length
    exact List.length_eq_zero_iff.mp (Nat.succ.inj length).symm

/-- When a whole trace was walked, its unit ends.  What is reported was collected before, leaks
from the last frame, or is a race. -/
theorem exists_finish {name : String} {registry : Registry} {config : CheckerConfig} {run : String}
    {opening : Bool → Except Fault σ} (h : (fresh name registry config run opening).Kept u)
    (gaveUp : Nat → Nat → Bool) :
    ∃ leaks c v, u.capabilities.Leaves leaks c ∧ u.Turns v u.bodies c leaks ∧
      ((finish gaveUp).run u).1.1.map Report.violations =
        some (Violation.sort (v.collectAll v.capabilities.validate).violations) := by
  obtain ⟨closed, alone, live, frames⟩ := closed_of_kept h
  obtain ⟨leaks, v, left⟩ := exists_leaveFrame frames u.root.span
  obtain ⟨c, leaves, turns⟩ := leaveFrame_ok left
  exact ⟨leaks, c, v, leaves, turns, (finish_ok live (run_closeScopes _ _ closed alone)
    (run_flushQueue (gaveUp 0) h.numbered.queue) left).1⟩

omit [Solver σ] in
theorem mem_sort {vs : List Violation} {w : Violation} : w ∈ Violation.sort vs ↔ w ∈ vs :=
  List.mem_mergeSort

omit [Solver σ] in
theorem eq_nil_of_sort {vs : List Violation} (h : Violation.sort vs = []) : vs = [] :=
  List.Perm.nil_eq (h ▸ List.mergeSort_perm vs _) |>.symm

/-- A unit that ends without a finding covers one that ends with tolerated findings. -/
theorem Covers.finish {name : String} {registry : Registry} {config : CheckerConfig} {run : String}
    {opening : Bool → Except Fault σ} {gaveUp gaveUp' : Nat → Nat → Bool} {found : List Violation}
    (hu : (fresh name registry config run opening).Kept u)
    (hp : (fresh name registry config run opening).Kept p)
    (whole : ((finish gaveUp).run u).1.1.map Report.violations = some [])
    (single : ((finish gaveUp').run p).1.1.map Report.violations = some found)
    (covers : u.violations = [] → u.Covers R T p) : ∀ w ∈ found, w.Tolerated T := by
  obtain ⟨leaks, c, v, leaves, turns, report⟩ := exists_finish hu gaveUp
  obtain ⟨leaks', c', q, leaves', turns', report'⟩ := exists_finish hp gaveUp'
  rw [report, Option.some.injEq] at whole
  rw [report', Option.some.injEq] at single
  -- nothing was collected in the whole unit, so its last frame leaked nothing either
  have none : v.violations = [] := (collectAll_eq_nil (eq_nil_of_sort whole)).1
  obtain ⟨silent, rfl⟩ := turns.silent none
  obtain ⟨-, races⟩ := (covers silent).held.leave leaves leaves'
  intro w mem
  rw [← single] at mem
  obtain early | race := mem_collectAll (mem_sort.mp mem)
  · rw [turns'.findings] at early
    obtain early | leak := mem_collectAll early
    · exact (covers silent).tolerated w early
    · exact .inr (races w leak)
  · exact .inr (Capability.Context.kind_of_mem_validate race)

end CompilationUnit

/-! ## Checks -/

/-- The findings of a check that went to its end. -/
def Trace.findings? {σ : Type} [Solver σ] (t : Trace) (config : CheckerConfig) (run : String)
    (opening : Bool → Except Fault σ) (gaveUp : Juncture → Bool) : Option (List Violation) :=
  (t.check config run opening gaveUp).report.map Report.violations

/-- A check with a report walked all its steps. -/
theorem Trace.findings?_eq_some {σ : Type} [Solver σ] {t : Trace} {config : CheckerConfig}
    {run : String} {opening : Bool → Except Fault σ} {gaveUp : Juncture → Bool} {found : List Violation}
    (h : t.findings? config run opening gaveUp = some found) :
    ∃ registry p, t.registry = .ok registry ∧
      (Step.replayAll gaveUp t.unit "steps" 0 t.steps).perform
        { unit := .fresh t.unit registry config run opening } = (.ok (), p) ∧
      ((CompilationUnit.finish fun n i => gaveUp (.closing n i)).run p.unit).1.1.map
        Report.violations = some found := by
  simp only [Trace.findings?, Trace.check] at h
  cases known : t.registry with
  | error e => simp [known] at h
  | ok registry =>
    simp only [known] at h
    rcases walk : (Step.replayAll gaveUp t.unit "steps" 0 t.steps).perform
      ({ unit := .fresh t.unit registry config run opening } : Replay σ) with ⟨_ | _, p⟩
    · simp only [walk] at h
      cases h
    · simp only [walk] at h
      exact ⟨registry, p, rfl, walk, h⟩

/-- A check that walked all its steps reports what the unit ends with. -/
theorem Trace.findings?_of_walk {σ : Type} [Solver σ] {t : Trace} {config : CheckerConfig}
    {run : String} {opening : Bool → Except Fault σ} {gaveUp : Juncture → Bool} {registry : Registry}
    {p : Replay σ} (known : t.registry = .ok registry)
    (walk : (Step.replayAll gaveUp t.unit "steps" 0 t.steps).perform
      { unit := .fresh t.unit registry config run opening } = (.ok (), p)) :
    t.findings? config run opening gaveUp =
      ((CompilationUnit.finish fun n i => gaveUp (.closing n i)).run p.unit).1.1.map
        Report.violations := by
  simp only [Trace.findings?, Trace.check, known, walk]
  rfl

/-- A check that walked all its steps has the fault that the end of the unit has. -/
theorem Trace.fault_of_walk {σ : Type} [Solver σ] {t : Trace} {config : CheckerConfig}
    {run : String} {opening : Bool → Except Fault σ} {gaveUp : Juncture → Bool}
    {registry : Registry} {p : Replay σ} (known : t.registry = .ok registry)
    (walk : (Step.replayAll gaveUp t.unit "steps" 0 t.steps).perform
      { unit := .fresh t.unit registry config run opening } = (.ok (), p)) :
    (t.check config run opening gaveUp).fault =
      ((CompilationUnit.finish fun n i => gaveUp (.closing n i)).run p.unit).1.2 := by
  simp only [Trace.check, known, walk]
  rfl

/-- A check without a fault walked all its steps. -/
theorem Trace.walk_of_fault_eq_none {σ : Type} [Solver σ] {t : Trace} {config : CheckerConfig}
    {run : String} {opening : Bool → Except Fault σ} {gaveUp : Juncture → Bool}
    {registry : Registry} (known : t.registry = .ok registry)
    (h : (t.check config run opening gaveUp).fault = none) :
    ∃ p, (Step.replayAll gaveUp t.unit "steps" 0 t.steps).perform
      { unit := .fresh t.unit registry config run opening } = (.ok (), p) := by
  simp only [Trace.check, known] at h
  rcases walk : (Step.replayAll gaveUp t.unit "steps" 0 t.steps).perform
    ({ unit := .fresh t.unit registry config run opening } : Replay σ) with ⟨_ | _, p⟩
  · rw [walk] at h
    cases h
  · exact ⟨p, rfl⟩

/-- The findings of a check that walks all its steps and leaves nothing open but the root.  The
end of the unit is written so that it can be evaluated. -/
def Trace.evaluate {σ : Type} [Solver σ] (t : Trace) (config : CheckerConfig) (run : String)
    (opening : Bool → Except Fault σ) (gaveUp : Juncture → Bool) : Option (List Violation) :=
  match t.registry with
  | .error _ => none
  | .ok registry =>
    match (Step.replayAll gaveUp t.unit "steps" 0 t.steps).perform
      { unit := .fresh t.unit registry config run opening } with
    | (.error _, _) => none
    | (.ok _, p) =>
      if !p.unit.finished && p.unit.current.blocks.isEmpty && p.unit.functions.isEmpty then
        some (p.unit.lastFindings fun n i => gaveUp (.closing n i))
      else none

theorem Trace.findings?_of_evaluate {σ : Type} [Solver σ] {t : Trace} {config : CheckerConfig}
    {run : String} {opening : Bool → Except Fault σ} {gaveUp : Juncture → Bool} {found : List Violation}
    (h : t.evaluate config run opening gaveUp = some found) :
    t.findings? config run opening gaveUp = some found := by
  unfold evaluate at h
  cases known : t.registry with
  | error e => simp [known] at h
  | ok registry =>
    simp only [known] at h
    rcases walk : (Step.replayAll gaveUp t.unit "steps" 0 t.steps).perform
      ({ unit := .fresh t.unit registry config run opening } : Replay σ) with ⟨_ | _, p⟩
    · simp only [walk] at h
      cases h
    · simp only [walk] at h
      split at h
      next ended =>
        simp only [Bool.and_eq_true, Bool.not_eq_true', List.isEmpty_iff] at ended
        obtain ⟨⟨live, closed⟩, single⟩ := ended
        rw [Trace.findings?_of_walk known walk, ← h]
        exact CompilationUnit.finish_closed live closed single _
      next => cases h

section

variable {σ : Type} [Solver σ] {d : Draft} {t : Trace} {config : CheckerConfig} {run : String}
  {opening : Bool → Except Fault σ} {gaveUp gaveUp' : Juncture → Bool} {steps : List Step}
  {found : List Violation}

/-- When a trace was read and its check has no finding, the check of a resolution only has
findings that the relation of records allows. -/
theorem tolerated_of_sustains {R : Record → Record → Prop} {T : Violation → Prop}
    {Ahead : List Step → CompilationUnit.Records → Prop} [Record.Cautious R T]
    (sustains : Step.Sustains σ gaveUp t.unit R Ahead) (ahead : Ahead t.steps [[[]]])
    (read : d.trace = .ok t)
    (proofless : Step.everyActIn (fun a _ => !a.isProof) t.steps = true)
    (tidy : Step.armsScopedIn t.steps = true)
    (whole : t.findings? config run opening gaveUp = some [])
    (way : Resolves t.steps steps)
    (single : Trace.findings? { t with steps } config run opening gaveUp' = some found) :
    ∀ v ∈ found, v.Tolerated T := by
  obtain ⟨named, sited⟩ := Draft.isSited_trace read
  obtain ⟨registry, p, known, walk, ended⟩ := Trace.findings?_eq_some whole
  obtain ⟨registry', q, known', walk', ended'⟩ := Trace.findings?_eq_some single
  cases known.symm.trans known'
  have n := CompilationUnit.numbered_fresh t.unit registry config run opening
  have kept := (Step.keptAll proofless tidy n walk).1
  have kept' := (Step.keptAll (way.everyActIn proofless) way.armsScopedIn n walk').1
  refine CompilationUnit.Covers.finish (R := R) kept kept' ended ended' fun silent => ?_
  refine way.beside sustains named proofless sited tidy n n ?_
    (CompilationUnit.covers_fresh t.unit registry config run opening) walk walk' silent
  exact ahead

/-- Joins keep the covering of records, whatever is ahead. -/
theorem sustains_covers (file : String) :
    Step.Sustains σ gaveUp file Record.Covers fun _ _ => True where
  next _ _ _ _ _ := trivial
  function _ := trivial
  block _ := trivial
  thread _ := trivial
  arm _ _ := trivial
  joins _ _ _ r _ := Ownership.Tracker.mergeRecord_covers r.2

/-- When a trace was read and its check has no finding, the check of a resolution only has
findings about borrows and threads. -/
theorem tolerated_of_resolves (read : d.trace = .ok t)
    (proofless : Step.everyActIn (fun a _ => !a.isProof) t.steps = true)
    (tidy : Step.armsScopedIn t.steps = true)
    (whole : t.findings? config run opening gaveUp = some [])
    (way : Resolves t.steps steps)
    (single : Trace.findings? { t with steps } config run opening gaveUp' = some found) :
    ∀ v ∈ found, v.Tolerated Record.BorrowFinding :=
  tolerated_of_sustains (sustains_covers t.unit) trivial read proofless tidy whole way single

/-- When the check of a trace has no finding, no way through the trace uses, moves or borrows
a value that was moved on it. -/
theorem no_moved_value_reached (read : d.trace = .ok t)
    (proofless : Step.everyActIn (fun a _ => !a.isProof) t.steps = true)
    (tidy : Step.armsScopedIn t.steps = true)
    (whole : t.findings? config run opening gaveUp = some [])
    (way : Resolves t.steps steps)
    (single : Trace.findings? { t with steps } config run opening gaveUp' = some found) :
    ∀ v ∈ found, v.kind ≠ .useAfterMove ∧ v.kind ≠ .doubleMove ∧
      (v.kind = .borrowAfterMove → v.reason = "moved while borrowed") := by
  intro v mem
  obtain (exclusive | ⟨kind, reason⟩) | race :=
    tolerated_of_resolves read proofless tidy whole way single v mem
  · simp [exclusive]
  · simp [kind, reason]
  · simp [race]

/-- A value is borrowed in both arms of a branch, in the second arm twice at one place.  The
join keeps one borrow for the place, and the release after it ends that one. -/
def loans : Draft where
  unit := "loans"
  steps :=
    [{ operations := [.declare "x"], type := "int", site := "1:1" },
     { operations := [.branch
        [[{ operations := [.access (.borrow false) "x"], site := "2:1" }],
         [{ operations := [.access (.borrow false) "x"], site := "2:1" },
          { operations := [.access (.borrow false) "x"], site := "2:1" }]]], site := "2:1" },
     { operations := [.release "x"], site := "3:1" },
     { operations := [.access .move "x"], site := "4:1" }]

/-- The trace of `loans`. -/
def loansTrace : Trace where
  unit := "loans"
  source := ""
  types := []
  steps :=
    [.act (.declare "x" "int") "1:1",
     .branch "2:1"
      [[.act (.access (.borrow false) "x") "2:1"],
       [.act (.access (.borrow false) "x") "2:1", .act (.access (.borrow false) "x") "2:1"]],
     .act (.release "x") "3:1",
     .act (.access .move "x") "4:1"]

/-- The way through `loans` that takes the second arm. -/
def loansWay : List Step :=
  .act (.declare "x" "int") "1:1" ::
    ([.act (.access (.borrow false) "x") "2:1", .act (.access (.borrow false) "x") "2:1"] ++
      [.act (.release "x") "3:1", .act (.access .move "x") "4:1"])

/-- The second arm of `loans` has a finding that the whole check has not, but its value was
not moved before. -/
theorem no_moved_value_reached_loans : loans.trace = .ok loansTrace ∧
    loansTrace.findings? {} "" bare Juncture.never = some [] ∧ Resolves loansTrace.steps loansWay ∧
    ∃ found, found ≠ [] ∧
      Trace.findings? { loansTrace with steps := loansWay } {} "" bare Juncture.never = some found ∧
      ∀ v ∈ found, v.kind ≠ .useAfterMove ∧ v.kind ≠ .doubleMove ∧
        (v.kind = .borrowAfterMove → v.reason = "moved while borrowed") := by
  have read : loans.trace = .ok loansTrace := rfl
  have whole : loansTrace.findings? {} "" bare Juncture.never = some [] := by
    exact Trace.findings?_of_evaluate (by decide +kernel)
  have way : Resolves loansTrace.steps loansWay :=
    .act (.arm (.tail _ (.head _)) (.act (.act .nil)) (.act (.act .nil)))
  have single : Trace.findings? { loansTrace with steps := loansWay } {} "" bare Juncture.never =
      some [{ Violation.against .borrowAfterMove "x" (.point "loans" 4 1) (.point "loans" 2 1)
        with reason := "moved while borrowed" }] := by
    exact Trace.findings?_of_evaluate (by decide +kernel)
  exact ⟨read, whole, way, _, List.cons_ne_nil _ _, single,
    no_moved_value_reached read rfl rfl whole way single⟩

/-- When the check of a trace has no finding, no way through the trace uses a capability that
was consumed on it, or leaves one behind. -/
theorem no_capability_misused (read : d.trace = .ok t)
    (proofless : Step.everyActIn (fun a _ => !a.isProof) t.steps = true)
    (tidy : Step.armsScopedIn t.steps = true)
    (whole : t.findings? config run opening gaveUp = some [])
    (way : Resolves t.steps steps)
    (single : Trace.findings? { t with steps } config run opening gaveUp' = some found) :
    ∀ v ∈ found, v.kind ≠ .useAfterConsumption ∧ v.kind ≠ .resourceLeak := by
  intro v mem
  obtain (exclusive | ⟨kind, -⟩) | race :=
    tolerated_of_resolves read proofless tidy whole way single v mem
  · simp [exclusive]
  · simp [kind]
  · simp [race]

/-- A socket is used by another thread after one of two arms synchronized, and consumed
after the join. -/
def handover : Draft where
  unit := "handover"
  types := [{ name := "Socket", capability := "socket" }]
  steps :=
    [{ operations := [.declare "s"], type := "Socket", site := "1:1" },
     { operations := [.branch
        [[{ operations := [.sync], site := "2:1" },
          { operations := [.thread "a"], site := "3:1",
            body := [{ operations := [.use "s"], site := "4:1" }] }],
         [{ operations := [.sync], site := "5:1" }]]], site := "2:1" },
     { operations := [.consume "s"], site := "6:1" }]

/-- The trace of `handover`. -/
def handoverTrace : Trace where
  unit := "handover"
  source := ""
  types := [{ name := "Socket", capability := "socket" }]
  steps :=
    [.act (.declare "s" "Socket") "1:1",
     .branch "2:1"
      [[.act .sync "2:1", .thread "a" "3:1" [.act (.use "s") "4:1"]],
       [.act .sync "5:1"]],
     .act (.consume "s") "6:1"]

/-- The way through `handover` that takes the first arm. -/
def handoverWay : List Step :=
  .act (.declare "s" "Socket") "1:1" ::
    ([.act .sync "2:1", .thread "a" "3:1" [.act (.use "s") "4:1"]] ++ [.act (.consume "s") "6:1"])

/-- The first arm of `handover` has a race that the whole check has not, but its socket is
consumed once and last. -/
theorem no_capability_misused_handover : handover.trace = .ok handoverTrace ∧
    handoverTrace.findings? {} "" bare Juncture.never = some [] ∧
    Resolves handoverTrace.steps handoverWay ∧
    ∃ found, found ≠ [] ∧
      Trace.findings? { handoverTrace with steps := handoverWay } {} "" bare Juncture.never = some found ∧
      ∀ v ∈ found, v.kind ≠ .useAfterConsumption ∧ v.kind ≠ .resourceLeak := by
  have read : handover.trace = .ok handoverTrace := rfl
  have whole : handoverTrace.findings? {} "" bare Juncture.never = some [] := by
    exact Trace.findings?_of_evaluate (by decide +kernel)
  have way : Resolves handoverTrace.steps handoverWay :=
    .act (.arm (.head _) (.act (.thread (.act .nil) .nil)) (.act .nil))
  have single : Trace.findings? { handoverTrace with steps := handoverWay } {} "" bare Juncture.never =
      some [{ Violation.against .concurrentUse "s" (.point "handover" 6 1) (.point "handover" 4 1)
        with
          threads := ("a", "main")
          reason := "accessed from a and main without synchronization" }] := by
    exact Trace.findings?_of_evaluate (by decide +kernel)
  exact ⟨read, whole, way, _, List.cons_ne_nil _ _, single,
    no_capability_misused read rfl rfl whole way single⟩

end

end ResourceSafety
