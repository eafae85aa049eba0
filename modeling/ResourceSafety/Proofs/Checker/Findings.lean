import ResourceSafety.Checker.Report
import ResourceSafety.Proofs.Checker.Lockstep
import ResourceSafety.Proofs.Violation

/-!
# Nothing is lost and nothing is doubled

Findings reach the list of a unit on many ways: accesses answer them, closings sweep them up,
also when a fault stops the closing, and finishing looks once more at everything that is left.

Each way is described by what it *returns* (`CompilationUnit.returned`), and the lemma about it
says that the list grew by what was returned, with known keys dropped (`Collects`).  For actions
this is carried through binds (`Gathers`), for closings through sequences (`Sweeps`).  A whole run
collects what its requests returned, and finishing collects what its closing steps find
(`CompilationUnit.closings`).

So the report has every key that was found, once, in report order (`report_of_run`).
-/

namespace ResourceSafety

open Logic (Action Solver)

/-! ## Diagnostics -/

/-- Only an undecided obligation is less than an error, unless it is asked to be one. -/
theorem Diagnostic.level_of_ne_error {unknownAsError : Bool} {v : Violation} :
    (Diagnostic.of unknownAsError v).level ≠ .error ↔
      v.kind = .solverTimeout ∧ unknownAsError = false := by
  simp only [Diagnostic.of]
  cases kind : v.kind with
  | solverTimeout => cases unknownAsError <;> simp
  | borrowAfterMove =>
    by_cases lent : v.reason = "moved while borrowed" <;> simp [Diagnostic.base, lent]
  | _ => simp [Diagnostic.base]

namespace CompilationUnit

variable {σ : Type} {u v w : CompilationUnit σ}

/-! ## Keys -/

/-- No key is collected twice. -/
theorem nodup_collectAll (h : (u.violations.map (·.key)).Nodup) (found : List Violation) :
    ((u.collectAll found).violations.map (·.key)).Nodup := by
  induction found generalizing u with
  | nil => exact h
  | cons x found ih =>
    refine ih (u := u.collect x) ?_
    simp only [collect]
    split
    · exact h
    next new =>
      rw [List.map_append, List.map_singleton]
      refine List.nodup_append_comm.mp (List.nodup_cons.mpr ⟨fun known => new ?_, h⟩)
      obtain ⟨y, mem, same⟩ := List.mem_map.mp known
      exact List.any_eq_true.mpr ⟨y, mem, beq_iff_eq.mpr same⟩

/-- `v` has the findings of `u` and those of `found`, each key once, and is as open. -/
structure Collects (u v : CompilationUnit σ) (found : List Violation) : Prop where
  violations : v.violations = (u.collectAll found).violations
  unknownAsError : v.unknownAsError = u.unknownAsError
  finished : v.finished = u.finished

namespace Collects

theorem refl (u : CompilationUnit σ) : u.Collects u [] := ⟨rfl, rfl, rfl⟩

theorem trans {found more : List Violation} (h : u.Collects v found) (h' : v.Collects w more) :
    u.Collects w (found ++ more) where
  violations := by
    rw [h'.violations, collectAll_congr h.violations, collectAll, collectAll, collectAll,
      List.foldl_append]
  unknownAsError := h'.unknownAsError.trans h.unknownAsError
  finished := h'.finished.trans h.finished

/-- A change that leaves the findings alone, before one that may not. -/
theorem after {found : List Violation} (h : u.Collects v []) (h' : v.Collects w found) :
    u.Collects w found := h.trans h'

theorem collectAll (u : CompilationUnit σ) (found : List Violation) :
    u.Collects (u.collectAll found) found := by
  refine ⟨rfl, ?_, ?_⟩ <;> rw [collectAll_eq]

end Collects

/-! ## Actions -/

/-- The findings of a result, which are none when there is a fault. -/
def told {α : Type} (f : α → List Violation) : Except Fault α → List Violation
  | .ok x => f x
  | .error _ => []

/-- The action collects the findings of its result. -/
def Gathers {α : Type} (f : α → List Violation) (a : Action (CompilationUnit σ) α) : Prop :=
  ∀ u : CompilationUnit σ, u.Collects (a.perform u).2 (told f (a.perform u).1)

/-- The action leaves the findings alone. -/
abbrev Silent {α : Type} (a : Action (CompilationUnit σ) α) : Prop := Gathers (fun _ => []) a

namespace Gathers

variable {α β : Type} {f : β → List Violation}

theorem bind {a : Action (CompilationUnit σ) α} {k : α → Action (CompilationUnit σ) β}
    (first : Silent a) (next : ∀ x, Gathers f (k x)) : Gathers f (a >>= k) := by
  intro u
  have silent := first u
  rw [Action.perform_bind]
  revert silent
  rcases a.perform u with ⟨fault | x, v⟩ <;> intro silent
  · exact silent
  · exact silent.after (next x v)

theorem pure {x : β} (none : f x = []) : Gathers (σ := σ) f (Pure.pure x) := by
  intro u
  rw [Action.perform_pure, told, none]
  exact .refl u

theorem throw (fault : Fault) : Gathers (σ := σ) f (MonadExcept.throw fault) := fun u => .refl u

theorem get_bind {k : CompilationUnit σ → Action (CompilationUnit σ) β}
    (next : ∀ u, Gathers f (k u)) : Gathers f (get >>= k) := fun u => next u u

theorem answer_bind {r : Except Fault α} {k : α → Action (CompilationUnit σ) β}
    (next : ∀ x, Gathers f (k x)) : Gathers f (MonadExcept.ofExcept r >>= k) := by
  intro u
  cases r with
  | error fault => exact .refl u
  | ok x => exact next x u

theorem modify_bind {g : CompilationUnit σ → CompilationUnit σ}
    {k : PUnit → Action (CompilationUnit σ) β} (same : ∀ u : CompilationUnit σ, u.Collects (g u) [])
    (next : Gathers f (k ⟨⟩)) : Gathers f (modify g >>= k) :=
  fun u => (same u).after (next (g u))

theorem modify {g : CompilationUnit σ → CompilationUnit σ}
    (same : ∀ u : CompilationUnit σ, u.Collects (g u) []) :
    Silent (modify g : Action (CompilationUnit σ) PUnit) := same

end Gathers

/-! ## Changes -/

theorem collects_changeCurrent (f : Body → Body) (u : CompilationUnit σ) :
    u.Collects (u.changeCurrent f) [] := by
  cases functions : u.functions <;> refine ⟨?_, ?_, ?_⟩ <;>
    simp [changeCurrent, functions, CompilationUnit.collectAll]

theorem collects_changeBody (id : Nat) (f : Body → Body) (u : CompilationUnit σ) :
    u.Collects (u.changeBody id f) [] := ⟨rfl, rfl, rfl⟩

theorem silent_requireLive : Silent (σ := σ) requireLive := by
  refine .get_bind fun u => ?_
  split
  · exact .throw _
  · exact .pure rfl

theorem silent_onDischarger {α : Type} (a : Action (Discharger σ) α) : Silent (onDischarger a) := by
  intro u
  simp only [onDischarger, Action.perform_get_bind]
  rcases a.perform u.discharger with ⟨r, d⟩
  rw [Action.perform_modify_bind, Action.perform_ofExcept]
  cases r <;> exact ⟨rfl, rfl, rfl⟩

theorem silent_onCapabilities (f : Capability.Context → Except Fault Capability.Context) :
    Silent (σ := σ) (onCapabilities f) :=
  .get_bind fun _ => .answer_bind fun _ => .modify fun _ => ⟨rfl, rfl, rfl⟩

/-! ## Requests that find nothing -/

theorem silent_declare (name : String) (type : Option Ty) (site : Span) :
    Silent (σ := σ) (declare name type site) := by
  refine .bind silent_requireLive fun _ => .get_bind fun u => ?_
  split
  · exact fun u => .refl u
  · refine .answer_bind fun tracker => .modify_bind (collects_changeCurrent _) ?_
    split
    · exact .bind (silent_onCapabilities _) fun _ =>
        .modify_bind (collects_changeCurrent _) (.pure rfl)
    · exact .modify_bind (collects_changeCurrent _) (.pure rfl)

theorem silent_remark (d : Declared) (a : Ownership.Access) (site : Span) :
    Silent (σ := σ) (remark d a site) := by
  unfold remark
  split
  · split
    · exact silent_onCapabilities _
    · exact .pure rfl
  · exact .pure rfl

theorem silent_release (name : String) (site : Span) : Silent (σ := σ) (release name site) :=
  .bind silent_requireLive fun _ => .get_bind fun _ => .answer_bind fun _ =>
    .answer_bind fun _ => .modify (collects_changeBody _ _)

theorem silent_enterThread (tag : ThreadTag) : Silent (σ := σ) (enterThread tag) :=
  .bind silent_requireLive fun _ => .modify fun _ => ⟨rfl, rfl, rfl⟩

theorem silent_exitThread : Silent (σ := σ) exitThread :=
  .bind silent_requireLive fun _ => silent_onCapabilities _

theorem silent_sync (site : Span) : Silent (σ := σ) (sync site) :=
  .bind silent_requireLive fun _ => .modify fun _ => ⟨rfl, rfl, rfl⟩

theorem silent_enterBlock (site : Span) : Silent (σ := σ) (enterBlock site) := by
  refine .bind silent_requireLive fun _ => .modify fun u => ?_
  exact (collects_changeCurrent _ u).after ⟨rfl, rfl, rfl⟩

theorem silent_beginFunction (name : String) (site : Span) :
    Silent (σ := σ) (beginFunction name site) :=
  .bind silent_requireLive fun _ => .modify fun _ => ⟨rfl, rfl, rfl⟩

theorem silent_beginBranch : Silent (σ := σ) beginBranch :=
  .bind silent_requireLive fun _ => .modify fun _ => ⟨rfl, rfl, rfl⟩

theorem silent_nextArm : Silent (σ := σ) nextArm := by
  refine .bind silent_requireLive fun _ => fun u => ?_
  rw [Action.perform_get_bind]
  cases u.forks with
  | nil => exact .refl u
  | cons f rest =>
    rw [Action.perform_set_bind]
    exact Collects.after (v := { u with forks := Fork.finishArm f u :: rest }.rewind f.entry)
      ⟨rfl, rfl, rfl⟩ (silent_onCapabilities _ _)

theorem silent_endBranch (site : Span) : Silent (σ := σ) (endBranch site) := by
  refine .bind silent_requireLive fun _ => fun u => ?_
  rw [Action.perform_get_bind]
  cases u.forks with
  | nil => exact .refl u
  | cons f rest =>
    rw [Action.perform_set_bind]
    refine Collects.after (v := { u with forks := rest }) ⟨rfl, rfl, rfl⟩ ?_
    refine Gathers.bind (silent_onCapabilities _) (fun _ => ?_) _
    exact .modify fun u => (⟨rfl, rfl, rfl⟩ : u.Collects (u.joinArms site _) [])

/-! ## Accesses -/

theorem gathers_access (a : Ownership.Access) (name : String) (site : Span) :
    Gathers (σ := σ) Option.toList (access a name site) := by
  refine .bind silent_requireLive fun _ => .get_bind fun _ => .answer_bind fun (b, d) =>
    .answer_bind fun (v, tracker) => .modify_bind (collects_changeBody _ _) ?_
  cases v with
  | some v => exact fun u => Collects.collectAll u [v]
  | none => exact .bind (silent_remark d a site) fun _ => .pure rfl

theorem gathers_capabilityAccess
    (op : Capability.Context → String → Span →
      Except Fault (Option Violation × Capability.Context)) (name : String) (site : Span) :
    Gathers (σ := σ) Option.toList (capabilityAccess op name site) := by
  refine .bind silent_requireLive fun _ => .get_bind fun _ => .answer_bind fun found => ?_
  obtain ⟨b, d⟩ := found
  dsimp only
  split
  · exact fun u => .refl u
  · refine .get_bind fun _ => .answer_bind fun (v, c) =>
      .modify_bind (fun _ => ⟨rfl, rfl, rfl⟩) ?_
    cases v with
    | some v => exact fun u => Collects.collectAll u [v]
    | none => exact .pure rfl

/-! ## Closings -/

/-- The closing collects the findings that it returns, with or without a fault. -/
def Sweeps (a : StateM (CompilationUnit σ) Sweep) : Prop :=
  ∀ u : CompilationUnit σ, u.Collects (a.run u).2 (a.run u).1.1

namespace Sweeps

theorem andThen {first second : StateM (CompilationUnit σ) Sweep} (h : Sweeps first)
    (h' : Sweeps second) : Sweeps (Sweep.andThen first second) := by
  intro u
  have early := h u
  rcases run : first.run u with ⟨⟨found, fault⟩, w⟩
  rw [run] at early
  cases fault with
  | some fault =>
    rw [run_andThen_fault run]
    exact early
  | none =>
    rcases run' : second.run w with ⟨⟨more, fault⟩, v⟩
    rw [run_andThen run run']
    have late := h' w
    rw [run'] at late
    exact early.trans late

theorem leaveFrame (site : Span) : Sweeps (σ := σ) (leaveFrame site) := by
  intro u
  rw [CompilationUnit.leaveFrame, run_get_bind]
  cases u.capabilities.exit site with
  | error fault => exact .refl u
  | ok result =>
    exact Collects.after (v := { u with capabilities := result.2 }) ⟨rfl, rfl, rfl⟩
      (.collectAll _ result.1)

theorem closeBlock (site : Span) : Sweeps (σ := σ) (closeBlock site) := by
  intro u
  rw [CompilationUnit.closeBlock, run_get_bind]
  cases blocks : u.current.blocks with
  | nil => exact .refl u
  | cons k rest =>
    cases u.current.tracker.exit with
    | error fault => exact .refl u
    | ok tracker => exact (collects_changeCurrent _ u).after (leaveFrame site _)

theorem exitBlock (site : Span) : Sweeps (σ := σ) (exitBlock site) := by
  intro u
  rw [CompilationUnit.exitBlock, run_get_bind]
  split
  · exact .refl u
  · exact closeBlock site u

theorem closeBlocks (site : Span) (blocks : List Block) :
    Sweeps (σ := σ) (closeBlocks site blocks) := by
  induction blocks with
  | nil => exact .refl
  | cons k rest ih => exact (closeBlock site).andThen ih

theorem dropFunction (site : Span) : Sweeps (σ := σ) (dropFunction site) := by
  intro u
  have run : ∃ w, (CompilationUnit.dropFunction site).run u = (([], none), w) ∧ u.Collects w [] := by
    refine ⟨_, rfl, ?_⟩
    cases functions : u.functions <;> refine ⟨?_, ?_, ?_⟩ <;>
      simp [functions, CompilationUnit.collectAll]
  obtain ⟨w, run, collects⟩ := run
  rw [run]
  exact collects

variable [Solver σ]

theorem flushQueue (gaveUp : Nat → Bool) : Sweeps (σ := σ) (flushQueue gaveUp) := by
  intro u
  rw [CompilationUnit.flushQueue, run_get_bind]
  rcases (Discharger.flush gaveUp).run u.discharger with ⟨⟨found, fault⟩, d⟩
  exact Collects.after (v := { u with discharger := d }) ⟨rfl, rfl, rfl⟩ (.collectAll _ found)

theorem endFunction (gaveUp : Nat → Bool) (site : Span) :
    Sweeps (σ := σ) (endFunction gaveUp site) := by
  intro u
  rw [CompilationUnit.endFunction, run_get_bind]
  split
  · exact .refl u
  · cases u.functions with
    | nil => exact .refl u
    | cons f rest =>
      exact ((flushQueue gaveUp).andThen ((closeBlocks site f.blocks).andThen
        ((leaveFrame site).andThen (dropFunction site)))) u

end Sweeps

/-! ## Runs -/

theorem collects_outcome {α : Type} {f : α → List Violation} {a : Action (CompilationUnit σ) α}
    (h : Gathers f a) (u : CompilationUnit σ) :
    u.Collects (u.outcome a).2 (told f (a.perform u).1) := by
  have same : (u.outcome a).2 = (a.perform u).2 := by
    simp only [outcome]
    split <;> simp_all
  exact same ▸ h u

theorem collects_silent {α : Type} {a : Action (CompilationUnit σ) α} (h : Silent a)
    (u : CompilationUnit σ) : u.Collects (u.outcome a).2 [] := by
  have collects := collects_outcome h u
  rcases result : (a.perform u).1 with fault | x <;> rw [result] at collects <;> exact collects

variable [Solver σ]

/-- The findings that a request returns, with or without a fault. -/
def returned (u : CompilationUnit σ) : Request → List Violation
  | .access a name site => told Option.toList ((access a name site).perform u).1
  | .use name site => told Option.toList ((use name site).perform u).1
  | .consume name site => told Option.toList ((consume name site).perform u).1
  | .share name site => told Option.toList ((share name site).perform u).1
  | .exitBlock site => ((exitBlock site).run u).1.1
  | .endFunction gaveUp site => ((endFunction gaveUp site).run u).1.1
  | _ => []

/-- Every request collects what it returns. -/
theorem collects_serve (u : CompilationUnit σ) (r : Request) :
    u.Collects (u.serve r).2 (u.returned r) := by
  cases r with
  | declare name type site => exact collects_silent (silent_declare name type site) u
  | access a name site => exact collects_outcome (gathers_access a name site) u
  | release name site => exact collects_silent (silent_release name site) u
  | use name site => exact collects_outcome (gathers_capabilityAccess _ name site) u
  | consume name site => exact collects_outcome (gathers_capabilityAccess _ name site) u
  | share name site => exact collects_outcome (gathers_capabilityAccess _ name site) u
  | enterThread tag => exact collects_silent (silent_enterThread tag) u
  | exitThread => exact collects_silent silent_exitThread u
  | sync site => exact collects_silent (silent_sync site) u
  | require | freshHandle | assertShape | assume =>
    exact collects_silent (.bind silent_requireLive fun _ => silent_onDischarger _) u
  | enterBlock site => exact collects_silent (silent_enterBlock site) u
  | exitBlock site => exact Sweeps.exitBlock site u
  | beginFunction name site => exact collects_silent (silent_beginFunction name site) u
  | endFunction gaveUp site => exact Sweeps.endFunction gaveUp site u
  | beginBranch => exact collects_silent silent_beginBranch u
  | nextArm => exact collects_silent silent_nextArm u
  | endBranch site => exact collects_silent (silent_endBranch site) u

/-- The unit after requests, whether or not they succeed. -/
def serveAll (u : CompilationUnit σ) (rs : List Request) : CompilationUnit σ :=
  rs.foldl (fun u r => (u.serve r).2) u

/-- The findings that requests return, one request after the other. -/
def findings (u : CompilationUnit σ) : List Request → List Violation
  | [] => []
  | r :: rs => u.returned r ++ (u.serve r).2.findings rs

theorem collects_serveAll (u : CompilationUnit σ) (rs : List Request) :
    u.Collects (u.serveAll rs) (u.findings rs) := by
  induction rs generalizing u with
  | nil => exact .refl u
  | cons r rs ih => exact (collects_serve u r).trans (ih (u.serve r).2)

/-! ## The closing steps -/

/-- The closing of the innermost block or function. -/
def innermost? (gaveUp : Nat → Bool) (u : CompilationUnit σ) :
    Option (StateM (CompilationUnit σ) Sweep) :=
  match u.current.blocks, u.functions with
  | b :: _, _ => some (closeBlock b.span)
  | [], f :: _ => some (endFunction gaveUp f.span)
  | [], [] => none

/-- The findings of closing blocks and functions from the inside, up to the first fault. -/
def scopeFindings (gaveUp : Nat → Nat → Bool) : Nat → CompilationUnit σ → List Violation
  | 0, _ => []
  | fuel + 1, u =>
    match u.innermost? (gaveUp (fuel + 1)) with
    | none => []
    | some closing =>
      (closing.run u).1.1 ++
        if (closing.run u).1.2.isSome then [] else scopeFindings gaveUp fuel (closing.run u).2

/-- The findings of finishing: those of the open scopes, of the queued obligations, of the
outermost frame, and of the last look for races. -/
def closings (gaveUp : Nat → Nat → Bool) (u : CompilationUnit σ) : List Violation :=
  let closed := ((closeScopes gaveUp u.scopeCount).run u).2
  let flushed := (flushQueue (gaveUp 0)).run closed
  let left := (leaveFrame u.root.span).run flushed.2
  u.scopeFindings gaveUp u.scopeCount ++ flushed.1.1 ++ left.1.1 ++ left.2.capabilities.validate

theorem sweeps_innermost {gaveUp : Nat → Bool} {closing : StateM (CompilationUnit σ) Sweep}
    (h : u.innermost? gaveUp = some closing) : Sweeps closing := by
  simp only [innermost?] at h
  split at h
  · cases h
    exact .closeBlock _
  · cases h
    exact .endFunction gaveUp _
  · cases h

theorem run_closeScopes_succ (gaveUp : Nat → Nat → Bool) (fuel : Nat) (u : CompilationUnit σ) :
    (closeScopes gaveUp (fuel + 1)).run u =
      match u.innermost? (gaveUp (fuel + 1)) with
      | none => (none, u)
      | some closing => (closing >>= closeScopes.next gaveUp fuel).run u := by
  rw [closeScopes, run_get_bind, innermost?]
  cases u.current.blocks <;> cases u.functions <;> rfl

theorem collects_closeScopes (gaveUp : Nat → Nat → Bool) (fuel : Nat) (u : CompilationUnit σ) :
    u.Collects ((closeScopes gaveUp fuel).run u).2 (u.scopeFindings gaveUp fuel) := by
  induction fuel generalizing u with
  | zero =>
    rw [closeScopes, scopeFindings]
    exact .refl u
  | succ fuel ih =>
    rw [run_closeScopes_succ, scopeFindings]
    cases inner : u.innermost? (gaveUp (fuel + 1)) with
    | none => exact .refl u
    | some closing =>
      have swept := sweeps_innermost inner u
      rcases run : closing.run u with ⟨⟨found, fault⟩, v⟩
      rw [run] at swept
      simp only [run_bind_of run, run, closeScopes.next]
      cases fault with
      | some fault =>
        show u.Collects v (found ++ [])
        rw [List.append_nil]
        exact swept
      | none => exact swept.trans (ih v)

theorem collects_closeSession (u : CompilationUnit σ) : u.Collects (closeSession.run u).2 [] := by
  rw [closeSession, run_get_bind]
  rcases Discharger.close.perform u.discharger with ⟨fault | x, d⟩ <;> exact ⟨rfl, rfl, rfl⟩

/-- A unit that is not finished reports what it collected, and what its closing steps find. -/
theorem exists_finish_report (live : u.finished = false) (gaveUp : Nat → Nat → Bool) :
    ∃ v, u.Collects v (u.closings gaveUp) ∧
      ((finish gaveUp).run u).1.1 = some { v with finished := true }.report := by
  have scopes := collects_closeScopes gaveUp u.scopeCount u
  rcases closed : (closeScopes gaveUp u.scopeCount).run u with ⟨inner, u₁⟩
  rcases flushed : (flushQueue (gaveUp 0)).run u₁ with ⟨queued, u₂⟩
  rcases left : (leaveFrame u.root.span).run u₂ with ⟨outer, u₃⟩
  have queue := Sweeps.flushQueue (gaveUp 0) u₁
  have frame := Sweeps.leaveFrame u.root.span u₂
  rw [closed] at scopes
  rw [flushed] at queue
  rw [left] at frame
  have races := Collects.collectAll u₃ u₃.capabilities.validate
  have session := collects_closeSession (u₃.collectAll u₃.capabilities.validate)
  refine ⟨(closeSession.run (u₃.collectAll u₃.capabilities.validate)).2, ?_, ?_⟩
  · simp only [closings, closed, flushed, left]
    simpa using (((scopes.trans queue).trans frame).trans races).trans session
  · rw [finish, run_get_bind, if_neg (by simp [live]), run_bind_of closed, run_bind_of flushed,
      run_bind_of left]
    rfl

/-! ## The report -/

/-- The report of a run has the keys of all violations that the requests returned or that the
closing steps found, each one once, in report order.  It has one diagnostic for each violation,
and the unit is accepted when the violations are undecided obligations that do not count as
errors. -/
theorem report_of_run (name : String) (registry : Registry) (config : CheckerConfig) (run : String)
    (opening : Bool → Except Fault σ) (rs : List Request) (gaveUp : Nat → Nat → Bool) :
    let start := fresh name registry config run opening
    let found := start.findings rs ++ (start.serveAll rs).closings gaveUp
    ∃ report, ((finish gaveUp).run (start.serveAll rs)).1.1 = some report ∧
      (report.violations.map (·.key)).Nodup ∧
      (∀ key, key ∈ report.violations.map (·.key) ↔ key ∈ found.map (·.key)) ∧
      report.violations ⊆ found ∧
      report.violations.Pairwise Violation.Precedes ∧
      report.diagnostics = report.violations.map (Diagnostic.of config.unknownAsError) ∧
      (report.accepted = true ↔
        ∀ v ∈ report.violations, v.kind = .solverTimeout ∧ config.unknownAsError = false) := by
  intro start found
  have whole := collects_serveAll start rs
  obtain ⟨v, closing, made⟩ := exists_finish_report whole.finished gaveUp
  have collects := whole.trans closing
  refine ⟨_, made, ?_⟩
  have perm := List.mergeSort_perm v.violations fun x y => !y.comesBefore x
  have flag : v.unknownAsError = config.unknownAsError := collects.unknownAsError
  have mem {x : Violation} : x ∈ Violation.sort v.violations ↔ x ∈ v.violations := perm.mem_iff
  refine ⟨?_, fun key => ?_, fun x inside => ?_, Violation.pairwise_sort _, ?_, ?_⟩
  · refine (perm.map _).nodup_iff.mpr ?_
    rw [collects.violations]
    exact nodup_collectAll (u := start) List.nodup_nil found
  · refine (perm.map _).mem_iff.trans ?_
    rw [collects.violations, List.mem_map, List.mem_map]
    constructor
    · rintro ⟨x, inside, rfl⟩
      obtain old | new := mem_collectAll inside
      · cases old
      · exact ⟨x, new, rfl⟩
    · rintro ⟨x, inside, rfl⟩
      exact exists_key_collectAll.mpr (.inr ⟨x, inside, rfl⟩)
  · rw [report, mem, collects.violations] at inside
    exact (mem_collectAll inside).resolve_left List.not_mem_nil
  · simp only [report, flag]
  · simp only [report, flag, List.all_map, List.all_eq_true, Function.comp_apply, bne_iff_ne,
      Diagnostic.level_of_ne_error]

end CompilationUnit

end ResourceSafety
