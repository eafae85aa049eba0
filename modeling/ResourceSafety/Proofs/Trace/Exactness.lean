import ResourceSafety.Proofs.Checker.Follow
import ResourceSafety.Proofs.Trace.Echo
import ResourceSafety.Proofs.Trace.Soundness

/-!
# Exactness of joins

The check of a trace without borrows, threads and obligations only reports what happens on some
way through the trace (`no_false_alarm`).

The whole walk is followed by a way that depends on a doubt: at each branch the way takes the arm
that speaks for the join about the doubt (`Step.echoes`).  The step that gives the whole walk its
first finding raises a doubt, and has a finding on every way that bears it out (`Step.alarms`).
Behind it the way is walked to its end without regard to the values.
-/

namespace ResourceSafety

open Logic (Action Solver)
open CompilationUnit

variable {σ : Type} [Solver σ] {p q : Replay σ} {e : CompilationUnit σ} {file : String}
  {gaveUp : Juncture → Bool} {x : Unit} {d : Doubt}

/-! ## Walks without borrows -/

/-- A simple act is a declaration, an access without a borrow, or an access to a capability. -/
theorem Act.isSimple_cases {what : Act} (plain : what.isSimple = true) :
    (∃ name type, what = .declare name type) ∨
    (∃ a name, what = .access a name ∧ ∀ exclusive, a ≠ .borrow exclusive) ∨
    ∃ op step kind name, Capability.Context.Accesses op step kind ∧
      (∀ site, Capability.Lifecycle.Uniform (step site)) ∧ ∀ cancelled start,
        what.perform (σ := σ) cancelled start =
          discard (Replay.request (capabilityAccess op name start)) := by
  cases what with
  | declare name type => exact .inl ⟨name, type, rfl⟩
  | access a name =>
    refine .inr (.inl ⟨a, name, rfl, ?_⟩)
    rintro exclusive rfl
    cases plain
  | use name =>
    exact .inr (.inr ⟨_, _, _, name, Capability.Context.accesses_use,
      fun _ => Capability.Lifecycle.uniform_use, fun _ _ => rfl⟩)
  | consume name =>
    exact .inr (.inr ⟨_, _, _, name, Capability.Context.accesses_consume,
      Capability.Lifecycle.uniform_consume, fun _ _ => rfl⟩)
  | share name =>
    exact .inr (.inr ⟨_, _, _, name, Capability.Context.accesses_share,
      fun _ => Capability.Lifecycle.uniform_share, fun _ _ => rfl⟩)
  | release | sync | fresh | assertShape | proveRange | proveShape => cases plain

theorem Act.simple {what : Act} {cancelled : Bool} {start : Span} (plain : what.isSimple = true)
    (n : p.unit.Numbered) (simple : p.unit.Simple)
    (h : (what.perform cancelled start).perform p = (.ok x, q)) : q.unit.Simple := by
  obtain ⟨name, type, rfl⟩ | ⟨a, name, rfl, unborrowed⟩ |
    ⟨op, step, kind, name, accesses, uniform, asks⟩ := isSimple_cases (σ := σ) plain
  · obtain ⟨t, -, h⟩ := Action.ofExcept_bind_ok h
    obtain ⟨_, h⟩ := Replay.discard_ok h
    exact simple.declare (Replay.request_ok h)
  · obtain ⟨_, h⟩ := Replay.discard_ok h
    exact simple.access n.toCounted unborrowed (Replay.request_ok h)
  · rw [asks] at h
    obtain ⟨_, h⟩ := Replay.discard_ok h
    exact simple.capabilityAccess accesses (uniform start) (Replay.request_ok h)

mutual

theorem Step.simple : ∀ {s : Step} {place : String} {p q : Replay σ},
    s.isSimple = true → s.armsScoped = true → p.unit.Numbered → p.unit.Simple →
    (s.replay gaveUp file place).perform p = (.ok x, q) → q.unit.Simple
  | .act what site, place, p, q, plain, tidy, n, simple, h => by
    obtain ⟨start, -, h⟩ := act_ok h
    exact Act.simple (by simpa [isSimple] using plain) n simple h
  | .function name site stop body, place, p, q, plain, tidy, n, simple, h => by
    obtain ⟨start, last, found, p₁, p₂, -, -, began, inner, ended⟩ := function_ok h
    have plain : isSimpleIn body = true := by simpa [isSimple] using plain
    have tidy : armsScopedIn body = true := by simpa [armsScoped] using tidy
    have m := numbered_beginFunction n began
    have kept := (keptAll (everyActIn_of_isSimpleIn plain) tidy m inner).1
    exact (simpleAll plain tidy m (simple.beginFunction began) inner).endFunction
      kept.numbered.queue (around_function n began kept).1 ended
  | .block site stop body, place, p, q, plain, tidy, n, simple, h => by
    obtain ⟨start, last, found, p₁, p₂, -, -, began, inner, ended⟩ := block_ok h
    exact (simpleAll (by simpa [isSimple] using plain) (by simpa [armsScoped] using tidy)
      (numbered_enterBlock n began) (simple.enterBlock began) inner).exitBlock ended
  | .thread _ _ _, _, _, _, plain, _, _, _, _ => nomatch plain
  | .branch site arms, place, p, q, plain, tidy, n, simple, h => by
    obtain ⟨start, p₁, p₂, began, inner, ended⟩ := branch_ok h
    exact (simpleArms (by simpa [isSimple] using plain) (by simpa [armsScoped] using tidy)
      (opened_beginBranch n began) (simple.beginBranch began) inner).endBranch ended

theorem Step.simpleAll :
    ∀ {steps : List Step} {list : String} {i : Nat} {p q : Replay σ},
    isSimpleIn steps = true → armsScopedIn steps = true → p.unit.Numbered → p.unit.Simple →
    (replayAll gaveUp file list i steps).perform p = (.ok x, q) → q.unit.Simple
  | [], list, i, p, q, plain, tidy, n, simple, h => by
    rw [replayAll] at h
    cases h
    exact simple
  | s :: rest, list, i, p, q, plain, tidy, n, held, h => by
    simp only [isSimpleIn, armsScopedIn, Bool.and_eq_true] at plain tidy
    obtain ⟨p₁, first, h⟩ := cons_ok h
    have m := (kept (everyAct_of_isSimple plain.1) tidy.1 n first).1.numbered
    exact simpleAll plain.2 tidy.2 m (simple plain.1 tidy.1 n held first) h

theorem Step.simpleArms {e : CompilationUnit σ} {outer : List Fork} :
    ∀ {arms : List (List Step)} {place : String} {i : Nat} {p q : Replay σ} {f : Fork},
    isSimpleOn arms = true → armsScopedOn arms = true → e.Opened p.unit f outer →
    p.unit.Simple → (replayArms gaveUp file place i arms).perform p = (.ok x, q) →
    q.unit.Simple
  | [], place, i, p, q, f, plain, tidy, opened, simple, h => by
    rw [replayArms] at h
    cases h
    exact simple
  | arm :: rest, place, i, p, q, f, plain, tidy, opened, simple, h => by
    simp only [isSimpleOn, armsScopedOn, Bool.and_eq_true, Bool.not_eq_true'] at plain tidy
    obtain ⟨p₁, p₂, next, inner, others⟩ := arm_ok h
    obtain ⟨f₁, opened₁, simple₁⟩ : ∃ f₁, e.Opened p₁.unit f₁ outer ∧ p₁.unit.Simple := by
      split at next
      · exact next ▸ ⟨f, opened, simple⟩
      · exact ⟨_, (opened.nextArm next).1, simple.nextArm next⟩
    obtain ⟨kept, same⟩ := keptAll (everyActIn_of_isSimpleIn plain.1) tidy.1.2
      opened₁.numbered inner
    exact simpleArms plain.2 tidy.2 (opened₁.walk kept (same tidy.1.1))
      (simpleAll plain.1 tidy.1.2 opened₁.numbered simple₁ inner) others

end

/-! ## Ways that follow -/

theorem Act.echoes {what : Act} {cancelled : Bool} {site : String} {start : Span}
    (plain : what.isSimple = true)
    (read : Replay.span file site = .ok start) (n : p.unit.Numbered)
    (h : (what.perform cancelled start).perform p = (.ok x, q))
    (firm : d = .none ∨ q.unit.violations = []) :
    Step.Echoes file [.act what site] (p.unit.Follows d) (q.unit.Follows d) := by
  refine .act read fun r follows => ?_
  obtain ⟨name, type, rfl⟩ | ⟨a, name, rfl, -⟩ |
    ⟨op, step, kind, name, accesses, uniform, asks⟩ := isSimple_cases (σ := σ) plain
  · obtain ⟨t, known, h⟩ := Action.ofExcept_bind_ok h
    obtain ⟨_, h⟩ := Replay.discard_ok h
    obtain ⟨y, v, run, follows'⟩ := follows.declare n (Replay.request_ok h)
    exact ⟨_, (Action.perform_answer_bind known).trans
      (Replay.perform_discard (Replay.perform_request run)), follows'⟩
  · obtain ⟨_, h⟩ := Replay.discard_ok h
    obtain ⟨y, v, run, follows'⟩ := follows.access n (Replay.request_ok h) firm
    exact ⟨_, Replay.perform_discard (Replay.perform_request run), follows'⟩
  · rw [asks] at h ⊢
    obtain ⟨_, h⟩ := Replay.discard_ok h
    obtain ⟨y, v, run, follows'⟩ :=
      follows.capabilityAccess n accesses (uniform start) (Replay.request_ok h) firm
    exact ⟨_, Replay.perform_discard (Replay.perform_request run), follows'⟩

/-- The moment is the end of a way through the step that follows from where `e` was. -/
def Step.Reaches (file : String) (s : Step) (d : Doubt) (e : CompilationUnit σ) (m : Moment) :
    Prop :=
  ∃ a : CompilationUnit σ, m = a.now ∧ a.Numbered ∧ a.outline = e.outline ∧
    a.registry = e.registry ∧ Echoes file [s] (e.Follows d) (a.Follows d)

omit [Solver σ] in
/-- The arm of a branch begins like the branch. -/
theorem Step.begin_arm_follows {f : Fork} {outer : List Fork} {i : Nat} {p₁ : Replay σ}
    (n : e.Numbered) (opened : e.Opened p.unit f outer) (simple : p.unit.Simple)
    (begun : i = 0 → ∀ d r, e.Follows d r → p.unit.Follows d r)
    (next : if i = 0 then p₁ = p else nextArm.perform p.unit = (.ok (), p₁.unit)) :
    ∃ f₁, e.Opened p₁.unit f₁ outer ∧ p₁.unit.Simple ∧ p₁.unit.violations = p.unit.violations ∧
      (∀ d r, e.Follows d r → p₁.unit.Follows d r) ∧
      f₁.arms = f.arms ++ if i = 0 then [] else [p.unit.now] := by
  split at next
  next first =>
    subst next
    exact ⟨f, opened, simple, rfl, begun first, by simp [first]⟩
  next later =>
    obtain ⟨_, _, _, -, -, turns⟩ := nextArm_ok next
    exact ⟨_, (opened.nextArm next).1, simple.nextArm next, turns.findings,
      fun d r follows => follows.nextArm n opened next, by simp [later, opened.arms_finishArm]⟩

/-- To every moment that meets the others at the end of a branch leads a way. -/
theorem Step.reaches_meeting {site : String} {arms : List (List Step)} {u : CompilationUnit σ}
    {f : Fork} {outer : List Fork} (n : e.Numbered) (opened : e.Opened u f outer)
    (counted : arms.length ≤ f.arms.length + 1)
    (reached : ∀ m ∈ f.arms ++ [u.now], (branch site arms).Reaches file d e m) {m : Moment}
    (mem : m ∈ meeting (Fork.finishArm f u)) : (branch site arms).Reaches file d e m := by
  rw [← opened.arms_finishArm] at reached
  simp only [meeting] at mem
  split at mem
  next one =>
    obtain mem | mem := List.mem_append.mp mem
    · exact reached m mem
    · -- a single arm may be passed over
      rw [opened.arms_finishArm, List.length_append, List.length_singleton] at one
      exact ⟨e, (List.mem_singleton.mp mem).trans opened.entry, n, rfl, rfl,
        .skip (by omega) fun _ => id⟩
  next => exact reached m mem

mutual

/-- A way follows the whole walk through a step. -/
theorem Step.echoes : ∀ {s : Step} {place : String} {p q : Replay σ},
    s.isSimple = true → s.armsScoped = true → p.unit.Numbered → p.unit.Simple →
    (s.replay gaveUp file place).perform p = (.ok x, q) →
    (d = .none ∨ q.unit.violations = []) →
    Echoes file [s] (p.unit.Follows d) (q.unit.Follows d)
  | .act what site, place, p, q, plain, tidy, n, simple, h, firm => by
    obtain ⟨start, read, h⟩ := act_ok h
    exact Act.echoes (by simpa [isSimple] using plain) read n h firm
  | .function name site stop body, place, p, q, plain, tidy, n, simple, h, firm => by
    obtain ⟨start, last, found, p₁, p₂, read, readEnd, began, inner, ended⟩ := function_ok h
    have plain : isSimpleIn body = true := by simpa [isSimple] using plain
    have tidy : armsScopedIn body = true := by simpa [armsScoped] using tidy
    have m := numbered_beginFunction n began
    have kept := (keptAll (everyActIn_of_isSimpleIn plain) tidy m inner).1
    have closed := (around_function n began kept).1
    obtain ⟨c, -, turns⟩ := endFunction_ok kept.numbered.queue closed ended
    exact .function read readEnd (fun r follows => follows.beginFunction n began)
      (echoesAll plain tidy m (simple.beginFunction began) inner
        (firm.imp_right fun silent => (turns.silent silent).1))
      fun r follows => follows.endFunction kept.numbered _ closed ended
  | .block site stop body, place, p, q, plain, tidy, n, simple, h, firm => by
    obtain ⟨start, last, found, p₁, p₂, read, readEnd, began, inner, ended⟩ := block_ok h
    obtain ⟨_, _, _, _, -, -, -, turns⟩ := closeBlock_ok (exitBlock_ok ended)
    exact .block read readEnd (fun r follows => follows.enterBlock n began)
      (echoesAll (by simpa [isSimple] using plain) (by simpa [armsScoped] using tidy)
        (numbered_enterBlock n began) (simple.enterBlock began) inner
        (firm.imp_right fun silent => (turns.silent silent).1))
      fun r follows => follows.exitBlock ended
  | .thread _ _ _, _, _, _, plain, _, _, _, _, _ => nomatch plain
  | .branch site arms, place, p, q, plain, tidy, n, simple, h, firm => by
    obtain ⟨start, p₁, p₂, began, inner, ended⟩ := branch_ok h
    have plain : isSimpleOn arms = true := by simpa [isSimple] using plain
    have tidy : armsScopedOn arms = true := by simpa [armsScoped] using tidy
    have opened := opened_beginBranch n began
    have begun := simple.beginBranch began
    have begins : ∀ d r, p.unit.Follows d r → p₁.unit.Follows d r :=
      fun _ _ follows => follows.beginBranch n began
    obtain ⟨_, _, _, -, -, turns⟩ := endBranch_ok ended
    obtain ⟨f, opened', counted, reached⟩ := echoesArms site plain tidy (List.Subset.refl arms)
      (Nat.zero_add _).symm n opened begun (Nat.zero_le _)
      (fun _ => begins) (by simp) inner (firm.imp_right fun silent => (turns.silent silent).1)
    -- one of the arms that meet speaks for all of them about the doubt
    have walked := simpleArms plain tidy opened begun inner
    have forks := walked.forks f (by rw [opened'.forks]; exact List.mem_cons_self)
    have nonempty : meeting (Fork.finishArm f p₂.unit) ≠ [] := by
      refine List.ne_nil_of_mem (Opened.mem_meeting (m := p₂.unit.now) ?_)
      rw [opened'.arms_finishArm]
      exact List.mem_append_right _ List.mem_cons_self
    obtain ⟨m, mem, speaks⟩ := exists_speaks nonempty
      (CompilationUnit.Simple.meeting (walked.finishArm forks)) d
    obtain ⟨a, rfl, na, same, registry, echoes⟩ :=
      reaches_meeting n opened' counted reached mem
    refine echoes.mono (fun _ => id) fun r follows => ?_
    exact follows.endBranch na (same.trans opened'.steady.outline.symm)
      (opened'.steady.registry.trans registry.symm) opened'.forks speaks ended

/-- A way follows the whole walk through steps. -/
theorem Step.echoesAll : ∀ {steps : List Step} {list : String} {i : Nat} {p q : Replay σ},
    isSimpleIn steps = true → armsScopedIn steps = true → p.unit.Numbered → p.unit.Simple →
    (replayAll gaveUp file list i steps).perform p = (.ok x, q) →
    (d = .none ∨ q.unit.violations = []) →
    Echoes file steps (p.unit.Follows d) (q.unit.Follows d)
  | [], list, i, p, q, plain, tidy, n, simple, h, firm => by
    rw [replayAll] at h
    cases h
    exact .nil fun _ => id
  | s :: rest, list, i, p, q, plain, tidy, n, held, h, firm => by
    simp only [isSimpleIn, armsScopedIn, Bool.and_eq_true] at plain tidy
    obtain ⟨p₁, first, h⟩ := cons_ok h
    have m := (kept (everyAct_of_isSimple plain.1) tidy.1 n first).1.numbered
    have later := (keptAll (everyActIn_of_isSimpleIn plain.2) tidy.2 m h).1
    exact .cons (echoes plain.1 tidy.1 n held first (firm.imp_right later.silent))
      (echoesAll plain.2 tidy.2 m (simple plain.1 tidy.1 n held first) h firm)

/-- To the end of each arm of a branch leads a way that follows from where the branch began. -/
theorem Step.echoesArms {e : CompilationUnit σ} {outer : List Fork} (site : String)
    {all : List (List Step)} : ∀ {arms : List (List Step)} {place : String} {i : Nat}
    {p q : Replay σ} {f : Fork},
    isSimpleOn arms = true → armsScopedOn arms = true → arms ⊆ all →
    all.length = i + arms.length → e.Numbered → e.Opened p.unit f outer → p.unit.Simple →
    i ≤ f.arms.length + 1 → (i = 0 → ∀ d r, e.Follows d r → p.unit.Follows d r) →
    (∀ m ∈ f.arms ++ if i = 0 then [] else [p.unit.now], (branch site all).Reaches file d e m) →
    (replayArms gaveUp file place i arms).perform p = (.ok x, q) →
    (d = .none ∨ q.unit.violations = []) →
    ∃ f', e.Opened q.unit f' outer ∧ all.length ≤ f'.arms.length + 1 ∧
      ∀ m ∈ f'.arms ++ [q.unit.now], (branch site all).Reaches file d e m
  | [], place, i, p, q, f, plain, tidy, within, length, n, opened, simple, counted, begun, reached,
      h, firm => by
    rw [replayArms] at h
    cases h
    refine ⟨f, opened, by simpa [length] using counted, fun m mem => ?_⟩
    by_cases first : i = 0
    · -- there is no arm, and the branch is passed over
      obtain old | new := List.mem_append.mp mem
      · exact reached m (List.mem_append_left _ old)
      · refine ⟨p.unit, List.mem_singleton.mp new, opened.numbered, opened.steady.outline,
          opened.steady.registry, .skip ?_ (begun first d)⟩
        simp [length, first]
    · rw [if_neg first] at reached
      exact reached m mem
  | arm :: rest, place, i, p, q, f, plain, tidy, within, length, n, opened, simple, counted, begun,
      reached, h, firm => by
    simp only [isSimpleOn, armsScopedOn, Bool.and_eq_true, Bool.not_eq_true'] at plain tidy
    obtain ⟨p₁, p₂, next, inner, others⟩ := arm_ok h
    obtain ⟨f₁, opened₁, simple₁, -, begun₁, arms⟩ :=
      begin_arm_follows n opened simple begun next
    obtain ⟨kept, same⟩ := keptAll (everyActIn_of_isSimpleIn plain.1) tidy.1.2
      opened₁.numbered inner
    have walked := opened₁.walk kept (same tidy.1.1)
    obtain ⟨_, -, steady, -⟩ := keptArms (everyActOn_of_isSimpleOn plain.2) tidy.2 walked others
    have followed := echoesAll plain.1 tidy.1.2 opened₁.numbered simple₁ inner
      (firm.imp_right steady.silent)
    refine echoesArms site plain.2 tidy.2 (List.subset_of_cons_subset within) ?_ n walked
      (simpleAll plain.1 tidy.1.2 opened₁.numbered simple₁ inner) ?_
      (fun none => absurd none (Nat.succ_ne_zero i)) (fun m mem => ?_) others firm
    · rw [length, List.length_cons]
      omega
    · rw [arms, List.length_append]
      split <;> simp <;> omega
    · rw [if_neg (Nat.succ_ne_zero i)] at mem
      obtain old | new := List.mem_append.mp mem
      · exact reached m (arms ▸ old)
      · exact ⟨p₂.unit, List.mem_singleton.mp new, walked.numbered, walked.steady.outline,
          walked.steady.registry, .arm (within List.mem_cons_self)
            (followed.mono (begun₁ d) fun _ => id)⟩

end

/-! ## Ways with a finding -/

/-- The way has a finding, and its names are those of the whole walk. -/
def Alarmed (u r : CompilationUnit σ) : Prop := u.Follows .none r ∧ r.violations ≠ []

theorem Act.alarms {what : Act} {cancelled : Bool} {site : String} {start : Span}
    (plain : what.isSimple = true)
    (read : Replay.span file site = .ok start) (n : p.unit.Numbered) (simple : p.unit.Simple)
    (h : (what.perform cancelled start).perform p = (.ok x, q)) (clean : p.unit.violations = [])
    (dirty : q.unit.violations ≠ []) :
    ∃ d, Step.Echoes file [.act what site] (p.unit.Follows d) (Alarmed q.unit) := by
  obtain ⟨name, type, rfl⟩ | ⟨a, name, rfl, -⟩ |
    ⟨op, step, kind, name, accesses, uniform, asks⟩ := isSimple_cases (σ := σ) plain
  · obtain ⟨t, -, h⟩ := Action.ofExcept_bind_ok h
    obtain ⟨_, h⟩ := Replay.discard_ok h
    obtain ⟨_, _, -, -, turns⟩ := declare_ok (Replay.request_ok h)
    exact absurd (turns.findings.trans clean) dirty
  · obtain ⟨_, h⟩ := Replay.discard_ok h
    have run := Replay.request_ok h
    obtain ⟨d, alarm⟩ := exists_doubt_access n simple run clean dirty
    refine ⟨d, .act read fun r follows => ?_⟩
    obtain ⟨y, v, run', follows'⟩ := follows.forget.access n run (.inl rfl)
    exact ⟨_, Replay.perform_discard (Replay.perform_request run'), follows',
      alarm _ follows y v run'⟩
  · rw [asks] at h
    obtain ⟨_, h⟩ := Replay.discard_ok h
    have run := Replay.request_ok h
    obtain ⟨d, alarm⟩ :=
      exists_doubt_capabilityAccess n simple accesses (uniform start) run clean dirty
    refine ⟨d, .act read fun r follows => ?_⟩
    obtain ⟨y, v, run', follows'⟩ :=
      follows.forget.capabilityAccess n accesses (uniform start) run (.inl rfl)
    rw [asks]
    exact ⟨_, Replay.perform_discard (Replay.perform_request run'), follows',
      alarm _ follows y v run'⟩

mutual

/-- A step that gives the whole walk its first finding has a finding on some way. -/
theorem Step.alarms : ∀ {s : Step} {place : String} {p q : Replay σ},
    s.isSimple = true → s.armsScoped = true → p.unit.Numbered → p.unit.Simple →
    (s.replay gaveUp file place).perform p = (.ok x, q) →
    p.unit.violations = [] → q.unit.violations ≠ [] →
    ∃ d, Echoes file [s] (p.unit.Follows d) (Alarmed q.unit)
  | .act what site, place, p, q, plain, tidy, n, simple, h, clean, dirty => by
    obtain ⟨start, read, h⟩ := act_ok h
    exact Act.alarms (by simpa [isSimple] using plain) read n simple h clean dirty
  | .function name site stop body, place, p, q, plain, tidy, n, simple, h, clean, dirty => by
    obtain ⟨start, last, found, p₁, p₂, read, readEnd, began, inner, ended⟩ := function_ok h
    have plain : isSimpleIn body = true := by simpa [isSimple] using plain
    have tidy : armsScopedIn body = true := by simpa [armsScoped] using tidy
    have m := numbered_beginFunction n began
    have begun := simple.beginFunction began
    have kept := (keptAll (everyActIn_of_isSimpleIn plain) tidy m inner).1
    have closed := (around_function n began kept).1
    by_cases silent : p₂.unit.violations = []
    · -- the end of the function finds something
      obtain ⟨d, alarm⟩ := exists_doubt_endFunction kept.numbered
        (simpleAll plain tidy m begun inner) closed ended silent dirty
      refine ⟨d, .function read readEnd (fun r follows => follows.beginFunction n began)
        (echoesAll plain tidy m begun inner (.inr silent)) fun r follows => ?_⟩
      obtain ⟨found', v, run, follows'⟩ := follows.forget.endFunction kept.numbered _ closed ended
      exact ⟨found', v, run, follows', alarm r follows _ found' v run⟩
    · obtain ⟨d, alarm⟩ := alarmsAll plain tidy m begun inner
        ((beginFunction_ok began).findings.trans clean) silent
      refine ⟨d, .function read readEnd (fun r follows => follows.beginFunction n began) alarm
        fun r alarmed => ?_⟩
      obtain ⟨found', v, run, follows'⟩ := alarmed.1.endFunction kept.numbered _ closed ended
      obtain ⟨c, -, turns⟩ := endFunction_ok alarmed.1.queue (alarmed.1.cons.1.blocks ▸ closed) run
      exact ⟨found', v, run, follows', fun none => alarmed.2 (turns.silent none).1⟩
  | .block site stop body, place, p, q, plain, tidy, n, simple, h, clean, dirty => by
    obtain ⟨start, last, found, p₁, p₂, read, readEnd, began, inner, ended⟩ := block_ok h
    have plain : isSimpleIn body = true := by simpa [isSimple] using plain
    have tidy : armsScopedIn body = true := by simpa [armsScoped] using tidy
    have m := numbered_enterBlock n began
    have begun := simple.enterBlock began
    by_cases silent : p₂.unit.violations = []
    · -- the end of the block finds something
      obtain ⟨d, alarm⟩ := exists_doubt_exitBlock (simpleAll plain tidy m begun inner) ended
        silent dirty
      refine ⟨d, .block read readEnd (fun r follows => follows.enterBlock n began)
        (echoesAll plain tidy m begun inner (.inr silent)) fun r follows => ?_⟩
      obtain ⟨found', v, run, follows'⟩ := follows.forget.exitBlock ended
      exact ⟨found', v, run, follows', alarm r follows found' v run⟩
    · obtain ⟨d, alarm⟩ := alarmsAll plain tidy m begun inner
        ((enterBlock_ok began).findings.trans clean) silent
      refine ⟨d, .block read readEnd (fun r follows => follows.enterBlock n began) alarm
        fun r alarmed => ?_⟩
      obtain ⟨found', v, run, follows'⟩ := alarmed.1.exitBlock ended
      obtain ⟨_, _, _, _, -, -, -, turns⟩ := closeBlock_ok (exitBlock_ok run)
      exact ⟨found', v, run, follows', fun none => alarmed.2 (turns.silent none).1⟩
  | .thread _ _ _, _, _, _, plain, _, _, _, _, _, _ => nomatch plain
  | .branch site arms, place, p, q, plain, tidy, n, simple, h, clean, dirty => by
    obtain ⟨start, p₁, p₂, began, inner, ended⟩ := branch_ok h
    have plain : isSimpleOn arms = true := by simpa [isSimple] using plain
    have tidy : armsScopedOn arms = true := by simpa [armsScoped] using tidy
    obtain ⟨steady, -, -, -⟩ := steady_beginBranch n began
    have opened := opened_beginBranch n began
    obtain ⟨f, opened', -, -⟩ := keptArms (everyActOn_of_isSimpleOn plain) tidy opened inner
    obtain ⟨_, _, _, -, -, turns⟩ := endBranch_ok ended
    obtain ⟨d, arm, mem, alarm⟩ := alarmsArms plain tidy n opened (simple.beginBranch began)
      (fun _ _ _ follows => follows.beginBranch n began) inner
      ((beginBranch_ok began) ▸ clean) fun none => dirty (turns.findings.trans none)
    refine ⟨d, (Echoes.arm mem alarm).mono (fun _ => id) fun r alarmed => ⟨?_, alarmed.2⟩⟩
    exact alarmed.1.steady (opened'.endBranch ended).2

/-- Steps that give the whole walk its first finding have a finding on some way. -/
theorem Step.alarmsAll : ∀ {steps : List Step} {list : String} {i : Nat} {p q : Replay σ},
    isSimpleIn steps = true → armsScopedIn steps = true → p.unit.Numbered → p.unit.Simple →
    (replayAll gaveUp file list i steps).perform p = (.ok x, q) →
    p.unit.violations = [] → q.unit.violations ≠ [] →
    ∃ d, Echoes file steps (p.unit.Follows d) (Alarmed q.unit)
  | [], list, i, p, q, plain, tidy, n, simple, h, clean, dirty => by
    rw [replayAll] at h
    cases h
    exact absurd clean dirty
  | s :: rest, list, i, p, q, plain, tidy, n, held, h, clean, dirty => by
    simp only [isSimpleIn, armsScopedIn, Bool.and_eq_true] at plain tidy
    obtain ⟨p₁, first, h⟩ := cons_ok h
    have m := (kept (everyAct_of_isSimple plain.1) tidy.1 n first).1.numbered
    have held₁ := simple plain.1 tidy.1 n held first
    by_cases silent : p₁.unit.violations = []
    · obtain ⟨d, alarm⟩ := alarmsAll plain.2 tidy.2 m held₁ h silent dirty
      exact ⟨d, .cons (echoes plain.1 tidy.1 n held first (.inr silent)) alarm⟩
    · obtain ⟨d, alarm⟩ := alarms plain.1 tidy.1 n held first clean silent
      exact ⟨d, .cons alarm ((echoesAll plain.2 tidy.2 m held₁ h (.inl rfl)).withFinding
        (everyActIn_of_isSimpleIn plain.2) fun _ follows => follows.numbered)⟩

/-- Arms that give the whole walk its first finding have a finding on some way through one of
them. -/
theorem Step.alarmsArms {e : CompilationUnit σ} {outer : List Fork} :
    ∀ {arms : List (List Step)} {place : String} {i : Nat} {p q : Replay σ} {f : Fork},
    isSimpleOn arms = true → armsScopedOn arms = true → e.Numbered →
    e.Opened p.unit f outer → p.unit.Simple →
    (i = 0 → ∀ d r, e.Follows d r → p.unit.Follows d r) →
    (replayArms gaveUp file place i arms).perform p = (.ok x, q) →
    p.unit.violations = [] → q.unit.violations ≠ [] →
    ∃ d, ∃ arm ∈ arms, Echoes file arm (e.Follows d) (Alarmed q.unit)
  | [], place, i, p, q, f, plain, tidy, n, opened, simple, begun, h, clean, dirty => by
    rw [replayArms] at h
    cases h
    exact absurd clean dirty
  | arm :: rest, place, i, p, q, f, plain, tidy, n, opened, simple, begun, h, clean, dirty => by
    simp only [isSimpleOn, armsScopedOn, Bool.and_eq_true, Bool.not_eq_true'] at plain tidy
    obtain ⟨p₁, p₂, next, inner, others⟩ := arm_ok h
    obtain ⟨f₁, opened₁, simple₁, findings, begun₁, -⟩ :=
      begin_arm_follows n opened simple begun next
    obtain ⟨kept, same⟩ := keptAll (everyActIn_of_isSimpleIn plain.1) tidy.1.2
      opened₁.numbered inner
    have walked := opened₁.walk kept (same tidy.1.1)
    by_cases silent : p₂.unit.violations = []
    · obtain ⟨d, arm', mem, alarm⟩ := alarmsArms plain.2 tidy.2 n walked
        (simpleAll plain.1 tidy.1.2 opened₁.numbered simple₁ inner)
        (fun none => absurd none (Nat.succ_ne_zero i)) others silent dirty
      exact ⟨d, arm', List.mem_cons_of_mem _ mem, alarm⟩
    · obtain ⟨d, alarm⟩ := alarmsAll plain.1 tidy.1.2 opened₁.numbered simple₁ inner
        (findings.trans clean) silent
      -- the other arms are left out
      obtain ⟨_, -, steady, -⟩ := keptArms (everyActOn_of_isSimpleOn plain.2) tidy.2 walked others
      exact ⟨d, arm, List.mem_cons_self, alarm.mono (begun₁ d) fun r alarmed =>
        ⟨alarmed.1.steady steady, alarmed.2⟩⟩

end

/-! ## Checks -/

/-- The way has a finding before its last frame is closed, or the frame leaks. -/
def Exposed (r : CompilationUnit σ) : Prop :=
  r.violations = [] → ∀ leaks c, r.capabilities.Leaves leaks c → leaks ≠ []

/-- A whole walk that ends with a finding has a finding on some way. -/
theorem Step.exists_exposed {steps : List Step} {list : String} {i : Nat} {leaks : List Violation}
    {c : Capability.Context} (plain : isSimpleIn steps = true) (tidy : armsScopedIn steps = true)
    (n : p.unit.Numbered) (simple : p.unit.Simple) (clean : p.unit.violations = [])
    (h : (replayAll gaveUp file list i steps).perform p = (.ok x, q))
    (leaves : q.unit.capabilities.Leaves leaks c) (dirty : q.unit.violations = [] → leaks ≠ []) :
    ∃ d, Echoes file steps (p.unit.Follows d) Exposed := by
  by_cases silent : q.unit.violations = []
  · obtain ⟨d, alarm⟩ := exists_doubt_leave (simpleAll plain tidy n simple h) leaves (dirty silent)
    exact ⟨d, (echoesAll plain tidy n simple h (.inr silent)).mono (fun _ => id)
      fun r follows none => alarm r follows none⟩
  · obtain ⟨d, alarm⟩ := alarmsAll plain tidy n simple h clean silent
    exact ⟨d, alarm.mono (fun _ => id) fun r alarmed none => absurd none alarmed.2⟩

section

variable {t : Trace} {config : CheckerConfig} {run : String} {opening : Bool → Except Fault σ}
  {found : List Violation}

/-- When no way through a trace has a finding, its check has none, whenever its caller gives up. -/
theorem no_false_alarm (plain : Step.isSimpleIn t.steps = true)
    (tidy : Step.armsScopedIn t.steps = true)
    (whole : t.findings? config run opening gaveUp = some found)
    (silent : ∀ steps, Resolves t.steps steps → ∀ found',
      Trace.findings? { t with steps } config run opening Juncture.never = some found' →
        found' = []) :
    found = [] := by
  obtain ⟨registry, p, known, walk, ended⟩ := Trace.findings?_eq_some whole
  have n := numbered_fresh t.unit registry config run opening
  have simple := simple_fresh t.unit registry config run opening
  have proofless := Step.everyActIn_of_isSimpleIn plain
  obtain ⟨leaks, c, v, leaves, turns, report⟩ :=
    exists_finish (Step.keptAll proofless tidy n walk).1 fun n i => gaveUp (.closing n i)
  have ending := (Step.simpleAll plain tidy n simple walk).capabilities.leaves leaves
  rw [ended, Option.some.injEq, turns.capabilities, ending.validate_eq_nil] at report
  rw [report]
  by_contra alarm
  have dirty : p.unit.violations = [] → leaks ≠ [] := by
    rintro clean rfl
    have none : v.violations = [] := turns.findings.trans clean
    exact alarm (by rw [show v.collectAll [] = v from rfl, none]; exact List.mergeSort_nil)
  obtain ⟨d, way, resolves, leads⟩ :=
    Step.exists_exposed plain tidy n simple rfl walk leaves dirty
  obtain ⟨q, walk', exposed⟩ := leads { unit := .fresh t.unit registry config run opening }
    "steps" 0 (follows_fresh d t.unit registry config run opening)
  obtain ⟨leaks', c', w, leaves', turns', report'⟩ := exists_finish
    (Step.keptAll (resolves.everyActIn proofless) resolves.armsScopedIn n walk').1 fun _ _ => false
  have single := Trace.findings?_of_walk (t := { t with steps := way }) known walk'
  have none := eq_nil_of_sort (silent way resolves _ (single.trans report'))
  obtain ⟨clean, kept⟩ := turns'.silent (collectAll_eq_nil none).1
  exact exposed clean leaks' c' leaves' kept

/-- A socket is consumed in both arms of a branch, in the second one after a use, and the name
is moved in the first one. -/
def relayTrace : Trace where
  unit := "relay"
  source := ""
  types := [{ name := "Socket", capability := "socket" }]
  steps :=
    [.act (.declare "s" "Socket") "1:1",
     .branch "2:1"
      [[.act (.consume "s") "2:1", .act (.access .move "s") "3:1"],
       [.act (.use "s") "4:1", .act (.consume "s") "5:1"]]]

/-- The ways through `relayTrace` take one of the two arms. -/
theorem ways_relayTrace {steps : List Step} (way : Resolves relayTrace.steps steps) :
    steps = [.act (.declare "s" "Socket") "1:1",
      .act (.consume "s") "2:1", .act (.access .move "s") "3:1"] ∨
    steps = [.act (.declare "s" "Socket") "1:1",
      .act (.use "s") "4:1", .act (.consume "s") "5:1"] := by
  obtain _ | way := way
  cases way with
  | skip few _ => exact absurd few (by decide)
  | arm arm taken rest =>
    cases rest
    obtain _ | ⟨_, _ | ⟨_, ⟨⟩⟩⟩ := arm <;> obtain _ | ⟨_ | ⟨⟨⟩⟩⟩ := taken
    · exact .inl rfl
    · exact .inr rfl

/-- Neither way through `relayTrace` has a finding. -/
theorem no_false_alarm_relay : Step.isSimpleIn relayTrace.steps = true ∧
    Step.armsScopedIn relayTrace.steps = true ∧
    (∀ steps, Resolves relayTrace.steps steps → ∀ found,
      Trace.findings? { relayTrace with steps } {} "" bare Juncture.never = some found → found = []) ∧
    ∃ found, relayTrace.findings? {} "" bare Juncture.never = some found ∧ found = [] := by
  have silent : ∀ steps, Resolves relayTrace.steps steps → ∀ found,
      Trace.findings? { relayTrace with steps } {} "" bare Juncture.never = some found → found = [] := by
    intro steps way found h
    have single : Trace.findings? { relayTrace with steps } {} "" bare Juncture.never = some [] := by
      obtain rfl | rfl := ways_relayTrace way
      · exact Trace.findings?_of_evaluate (by decide +kernel)
      · exact Trace.findings?_of_evaluate (by decide +kernel)
    exact (Option.some.inj (single.symm.trans h)).symm
  obtain ⟨found, whole⟩ : ∃ found, relayTrace.findings? {} "" bare Juncture.never = some found :=
    ⟨[], Trace.findings?_of_evaluate (by decide +kernel)⟩
  exact ⟨rfl, rfl, silent, found, whole, no_false_alarm rfl rfl whole silent⟩

end

end ResourceSafety
