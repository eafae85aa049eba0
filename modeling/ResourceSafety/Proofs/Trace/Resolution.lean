import ResourceSafety.Proofs.Source.Reading
import ResourceSafety.Proofs.Trace.Walk

/-!
# Resolutions of traces

A *resolution* of a trace is one way through it: each branch is replaced by the steps of
one of its arms, and a branch with a single arm may also be passed over.

The whole trace is walked beside each of its resolutions.  As long as the whole walk has
no finding, it covers the walk of the resolution, through branches inside branches and
scopes inside arms (`Resolves.beside`).  The induction is on the resolution.  Where it
takes an arm, the whole walk goes through the arms before it, which are rewound, through
the arm itself, beside the resolution, and through the arms after it.  The end of the
taken arm is among those that meet, and the join covers it.

So a trace without findings has no way through it that uses a moved value, or loses or
reuses a capability.

Records are compared by a relation that requests keep.  A relation that joins keep only under
some condition comes with that condition on the whole walk (`Step.Sustains`).
-/

namespace ResourceSafety

open Logic (Action Solver)
open CompilationUnit Capability.Context
open Ownership (Record)

/-- The steps on one way through a trace. -/
inductive Resolves : List Step → List Step → Prop
  | nil : Resolves [] []
  | act {what : Act} {site : String} {rest rest' : List Step} :
      Resolves rest rest' → Resolves (.act what site :: rest) (.act what site :: rest')
  | function {name site stop : String} {body body' rest rest' : List Step} :
      Resolves body body' → Resolves rest rest' →
      Resolves (.function name site stop body :: rest) (.function name site stop body' :: rest')
  | block {site stop : String} {body body' rest rest' : List Step} :
      Resolves body body' → Resolves rest rest' →
      Resolves (.block site stop body :: rest) (.block site stop body' :: rest')
  | thread {tag site : String} {body body' rest rest' : List Step} :
      Resolves body body' → Resolves rest rest' →
      Resolves (.thread tag site body :: rest) (.thread tag site body' :: rest')
  /-- One arm is taken. -/
  | arm {site : String} {arms : List (List Step)} {arm arm' rest rest' : List Step} :
      arm ∈ arms → Resolves arm arm' → Resolves rest rest' →
      Resolves (.branch site arms :: rest) (arm' ++ rest')
  /-- A branch with a single arm is passed over. -/
  | skip {site : String} {arms : List (List Step)} {rest rest' : List Step} :
      arms.length ≤ 1 → Resolves rest rest' → Resolves (.branch site arms :: rest) rest'

namespace Step

theorem everyActIn_append {test : Act → String → Bool} {l m : List Step} :
    everyActIn test (l ++ m) = (everyActIn test l && everyActIn test m) := by
  induction l with
  | nil => simp [everyActIn]
  | cons s l ih => simp [everyActIn, ih, Bool.and_assoc]

theorem armsScopedIn_append {l m : List Step} :
    armsScopedIn (l ++ m) = (armsScopedIn l && armsScopedIn m) := by
  induction l with
  | nil => simp [armsScopedIn]
  | cons s l ih => simp [armsScopedIn, ih, Bool.and_assoc]

end Step

namespace Resolves

variable {steps steps' : List Step}

open Step

theorem everyActIn {test : Act → String → Bool} (h : Resolves steps steps')
    (every : Step.everyActIn test steps = true) : Step.everyActIn test steps' = true := by
  induction h with
  | nil => rfl
  | act _ ih =>
    simp only [Step.everyActIn, everyAct, Bool.and_eq_true] at every ⊢
    exact ⟨every.1, ih every.2⟩
  | function _ _ inner ih | block _ _ inner ih | thread _ _ inner ih =>
    simp only [Step.everyActIn, everyAct, Bool.and_eq_true] at every ⊢
    exact ⟨inner every.1, ih every.2⟩
  | arm mem _ _ inner ih =>
    simp only [Step.everyActIn, everyAct, Bool.and_eq_true] at every
    simp only [everyActIn_append, Bool.and_eq_true]
    exact ⟨inner (everyActIn_of_mem every.1 mem), ih every.2⟩
  | skip _ _ ih =>
    simp only [Step.everyActIn, Bool.and_eq_true] at every
    exact ih every.2

/-- A resolution has no branches, so nothing is declared in an arm. -/
theorem armsScopedIn (h : Resolves steps steps') : Step.armsScopedIn steps' = true := by
  induction h with
  | nil => rfl
  | act _ ih => simpa [Step.armsScopedIn, armsScoped] using ih
  | function _ _ inner ih | block _ _ inner ih | thread _ _ inner ih =>
    simp [Step.armsScopedIn, armsScoped, inner, ih]
  | arm _ _ _ inner ih => simp [armsScopedIn_append, inner, ih]
  | skip _ _ ih => exact ih

/-- A way through the first steps goes on with a way through the others. -/
theorem append {l l' m m' : List Step} (h : Resolves l l') (h' : Resolves m m') :
    Resolves (l ++ m) (l' ++ m') := by
  induction h with
  | nil => exact h'
  | act _ ih => exact .act ih
  | function inside _ _ ih => exact .function inside ih
  | block inside _ _ ih => exact .block inside ih
  | thread inside _ _ ih => exact .thread inside ih
  | arm mem taken _ _ ih =>
    rw [List.append_assoc]
    exact .arm mem taken ih
  | skip single _ ih => exact .skip single ih

end Resolves

/-! ## Sites -/

/-- A place that is written in a file with a name is never the zero span. -/
theorem span_ne_zero {file text : String} {s : Span} (named : file ≠ "") (written : text ≠ "")
    (h : Replay.span file text = .ok s) : s ≠ .zero := by
  rw [Replay.span, if_neg (by simpa using written)] at h
  cases read : Span.ofCompact file text with
  | error e => simp [read, Except.mapError] at h
  | ok span =>
    simp only [read, Except.mapError, Except.ok.injEq] at h
    subst h
    have file_eq := (Span.readCompact_cases read).1.file
    rintro rfl
    exact named file_eq.symm

/-! ## The walk of a trace beside the walk of a resolution -/

section

variable {σ : Type} [Solver σ] {p p' q q' : Replay σ} {e : CompilationUnit σ}
  {gaveUp gaveUp' : Juncture → Bool} {file : String} {x y : Unit} {R : Record → Record → Prop}
  {T : Violation → Prop} {Ahead : List Step → Records → Prop}

theorem Act.covers [Record.Cautious R T] {what : Act} {cancelled cancelled' : Bool} {site : String}
    {start : Span} (proofless : what.isProof = false)
    (sited : what.isSited site = true) (named : file ≠ "")
    (read : Replay.span file site = .ok start) (covers : p.unit.Covers R T q.unit)
    (n : p.unit.Numbered) (m : q.unit.Numbered)
    (hp : (what.perform cancelled start).perform p = (.ok x, p'))
    (hq : (what.perform cancelled' start).perform q = (.ok y, q'))
    (silent : p'.unit.violations = []) : p'.unit.Covers R T q'.unit := by
  cases what with
  | declare name type =>
    obtain ⟨t, known, hp⟩ := Action.ofExcept_bind_ok hp
    obtain ⟨t', known', hq⟩ := Action.ofExcept_bind_ok hq
    cases known.symm.trans known'
    obtain ⟨_, hp⟩ := Replay.discard_ok hp
    obtain ⟨_, hq⟩ := Replay.discard_ok hq
    exact covers.declare n m (Replay.request_ok hp) (Replay.request_ok hq)
  | access kind name =>
    obtain ⟨_, hp⟩ := Replay.discard_ok hp
    obtain ⟨_, hq⟩ := Replay.discard_ok hq
    exact covers.access n m (Replay.request_ok hp) (Replay.request_ok hq) silent
  | release name => exact covers.release n m (Replay.request_ok hp) (Replay.request_ok hq)
  | use name =>
    obtain ⟨_, hp⟩ := Replay.discard_ok hp
    obtain ⟨_, hq⟩ := Replay.discard_ok hq
    exact covers.capabilityAccess n m accesses_use (fun h => h.use)
      (Replay.request_ok hp) (Replay.request_ok hq) silent
  | consume name =>
    have set : start ≠ .zero := by
      refine span_ne_zero named ?_ read
      simpa [Act.isSited] using sited
    obtain ⟨_, hp⟩ := Replay.discard_ok hp
    obtain ⟨_, hq⟩ := Replay.discard_ok hq
    exact covers.capabilityAccess n m accesses_consume (fun _ => .consume set)
      (Replay.request_ok hp) (Replay.request_ok hq) silent
  | share name =>
    obtain ⟨_, hp⟩ := Replay.discard_ok hp
    obtain ⟨_, hq⟩ := Replay.discard_ok hq
    exact covers.capabilityAccess n m accesses_share (fun h => h.share true true)
      (Replay.request_ok hp) (Replay.request_ok hq) silent
  | sync =>
    obtain ⟨_, quiet, turns⟩ := sync_ok (Replay.request_ok hp)
    obtain ⟨_, quiet', turns'⟩ := sync_ok (Replay.request_ok hq)
    exact covers.quiet quiet quiet' turns turns'
  | fresh | assertShape | proveRange | proveShape => cases proofless

omit [Solver σ] in
/-- An arm of a branch begins, covering what the branch covered at its beginning. -/
theorem Step.begin_arm {f : Fork} {outer : List Fork} {i : Nat}
    {p₁ : Replay σ} (ne : e.Numbered) (opened : e.Opened p.unit f outer)
    (covers : e.Covers R T q.unit)
    (begun : i = 0 → p.unit.Covers R T q.unit ∧ p.unit.records = e.records)
    (next : if i = 0 then p₁ = p else nextArm.perform p.unit = (.ok (), p₁.unit)) :
    ∃ f₁, e.Opened p₁.unit f₁ outer ∧ p₁.unit.Covers R T q.unit ∧
      p₁.unit.records = e.records := by
  split at next
  next first =>
    subst next
    exact ⟨f, opened, begun first⟩
  next =>
    exact ⟨_, (opened.nextArm next).1, opened.covers_nextArm ne covers next,
      opened.records_nextArm ne next⟩

/-- The walk over the arms of a branch, split at one of them.  The arm is walked from a
state that covers what the branch covered, and its end is among those that meet. -/
theorem Step.split_arms {f : Fork} {outer : List Fork} {place : String}
    {i : Nat} {before after : List (List Step)} {arm : List Step}
    (proofless : everyActOn (fun a _ => !a.isProof) (before ++ arm :: after) = true)
    (tidy : armsScopedOn (before ++ arm :: after) = true) (ne : e.Numbered)
    (opened : e.Opened p.unit f outer) (covers : e.Covers R T q.unit)
    (begun : i = 0 → p.unit.Covers R T q.unit ∧ p.unit.records = e.records)
    (h : (replayArms gaveUp file place i (before ++ arm :: after)).perform p = (.ok x, p')) :
    ∃ p₁ p₂ f₂ place', p₁.unit.Numbered ∧ p₁.unit.Covers R T q.unit ∧
      p₁.unit.records = e.records ∧
      (replayAll gaveUp file place' 0 arm).perform p₁ = (.ok (), p₂) ∧ e.Steady p₂.unit ∧
      e.Opened p'.unit f₂ outer ∧ p₂.unit.Steady p'.unit ∧
      p₂.unit.now ∈ (Fork.finishArm f₂ p'.unit).arms := by
  induction before generalizing p f i with
  | nil =>
    simp only [List.nil_append, everyActOn, armsScopedOn, Bool.and_eq_true, Bool.not_eq_true']
      at proofless tidy h
    obtain ⟨p₁, p₂, next, inner, others⟩ := arm_ok h
    obtain ⟨f₁, opened₁, covers₁, records⟩ := begin_arm ne opened covers begun next
    obtain ⟨kept, same⟩ := keptAll proofless.1 tidy.1.2 opened₁.numbered inner
    have walked := opened₁.walk kept (same tidy.1.1)
    obtain ⟨f₂, opened₂, steady, grows⟩ := keptArms proofless.2 tidy.2 walked others
    refine ⟨p₁, p₂, f₂, _, opened₁.numbered, covers₁, records, inner, walked.steady, opened₂,
      steady, ?_⟩
    rw [opened₂.arms_finishArm]
    exact (grows (Nat.succ_ne_zero i)).subset (List.mem_append_right _ (List.mem_singleton.mpr rfl))
  | cons first before ih =>
    simp only [List.cons_append, everyActOn, armsScopedOn, Bool.and_eq_true, Bool.not_eq_true']
      at proofless tidy h
    -- an arm before the one that is looked for: its end is kept in the fork, and the next
    -- arm is rewound to the beginning, so its own covering is not needed
    obtain ⟨p₁, p₂, next, inner, others⟩ := arm_ok h
    obtain ⟨f₁, opened₁, -⟩ := begin_arm ne opened covers begun next
    obtain ⟨kept, same⟩ := keptAll proofless.1 tidy.1.2 opened₁.numbered inner
    have walked := opened₁.walk kept (same tidy.1.1)
    exact ih proofless.2 tidy.2 walked (fun none => absurd none (Nat.succ_ne_zero i)) others

/-- The walk of a branch that is passed over. -/
theorem Step.skip_arms {f : Fork} {outer : List Fork} {place : String}
    {arms : List (List Step)} (single : arms.length ≤ 1)
    (proofless : everyActOn (fun a _ => !a.isProof) arms = true)
    (tidy : armsScopedOn arms = true) (opened : e.Opened p.unit f outer)
    (h : (replayArms gaveUp file place 0 arms).perform p = (.ok x, p')) :
    e.Opened p'.unit f outer := by
  cases arms with
  | nil =>
    rw [replayArms] at h
    cases h
    exact opened
  | cons arm rest =>
    have none : rest = [] :=
      List.length_eq_zero_iff.mp (Nat.le_zero.mp (Nat.le_of_succ_le_succ single))
    subst none
    simp only [everyActOn, armsScopedOn, Bool.and_eq_true, Bool.not_eq_true'] at proofless tidy
    obtain ⟨p₁, p₂, next, inner, others⟩ := arm_ok h
    rw [if_pos rfl] at next
    subst next
    obtain ⟨kept, same⟩ := keptAll proofless.1 tidy.1.2 opened.numbered inner
    rw [replayArms] at others
    cases others
    exact opened.walk kept (same tidy.1.1)

/-- A condition on the records of the whole walk, with the given steps ahead of it.  It is kept
along the walk and by what the steps open, and under it joins keep the relation `R`. -/
structure Step.Sustains (σ : Type) [Solver σ] (gaveUp : Juncture → Bool) (file : String)
    (R : Record → Record → Prop) (Ahead : List Step → Records → Prop) : Prop where
  next {s : Step} {rest : List Step} {place : String} {p p' : Replay σ} {x : Unit} :
    s.everyAct (fun a _ => !a.isProof) = true → s.armsScoped = true → p.unit.Numbered →
    Ahead (s :: rest) p.unit.records → (s.replay gaveUp file place).perform p = (.ok x, p') →
    Ahead rest p'.unit.records
  function {name site stop : String} {body rest : List Step} {l : Records} :
    Ahead (.function name site stop body :: rest) l → Ahead body ([[]] :: l)
  block {site stop : String} {body rest : List Step} {s : List (List (String × Record))}
    {l : Records} : Ahead (.block site stop body :: rest) (s :: l) → Ahead body (([] :: s) :: l)
  thread {tag site : String} {body rest : List Step} {l : Records} :
    Ahead (.thread tag site body :: rest) l → Ahead body l
  arm {site : String} {arms : List (List Step)} {arm rest : List Step} {l : Records} :
    arm ∈ arms → Ahead (.branch site arms :: rest) l → Ahead arm l
  joins {steps : List Step} {l : Records} :
    Ahead steps l → ∀ s ∈ l, ∀ r ∈ s.flatten, Ownership.Tracker.Joins R r.2

/-- The condition holds at the end of the steps. -/
theorem Step.Sustains.all (sustains : Sustains σ gaveUp file R Ahead) {steps : List Step}
    {list : String} {i : Nat} (proofless : everyActIn (fun a _ => !a.isProof) steps = true)
    (tidy : armsScopedIn steps = true) (n : p.unit.Numbered) (ahead : Ahead steps p.unit.records)
    (h : (replayAll gaveUp file list i steps).perform p = (.ok x, p')) :
    Ahead [] p'.unit.records := by
  induction steps generalizing p i with
  | nil =>
    rw [replayAll] at h
    cases h
    exact ahead
  | cons s rest ih =>
    simp only [everyActIn, armsScopedIn, Bool.and_eq_true] at proofless tidy
    obtain ⟨p₁, first, h⟩ := cons_ok h
    have n₁ := (kept proofless.1 tidy.1 n first).1.numbered
    exact ih proofless.2 tidy.2 n₁ (sustains.next proofless.1 tidy.1 n ahead first) h

/-- Where the walk of `steps` has no finding, it covers the walk of `steps'`. -/
def Step.Beside (σ : Type) [Solver σ] (gaveUp gaveUp' : Juncture → Bool) (file : String)
    (R : Record → Record → Prop) (T : Violation → Prop) (Ahead : List Step → Records → Prop)
    (steps steps' : List Step) : Prop :=
  ∀ ⦃p p' q q' : Replay σ⦄ ⦃list list' : String⦄ ⦃i i' : Nat⦄ ⦃x y : Unit⦄,
    p.unit.Numbered → q.unit.Numbered → Ahead steps p.unit.records →
    p.unit.Covers R T q.unit →
    (replayAll gaveUp file list i steps).perform p = (.ok x, p') →
    (replayAll gaveUp' file list' i' steps').perform q = (.ok y, q') →
    p'.unit.violations = [] → p'.unit.Covers R T q'.unit

/-- Two walks are continued, one of them behind the other. -/
theorem Step.Beside.cons (sustains : Sustains σ gaveUp file R Ahead) {s s' : Step}
    {rest rest' : List Step}
    (proofless : everyActIn (fun a _ => !a.isProof) (s :: rest) = true)
    (tidy : armsScopedIn (s :: rest) = true)
    (proofless' : s'.everyAct (fun a _ => !a.isProof) = true) (tidy' : s'.armsScoped = true)
    (first : ∀ {p p' q q' : Replay σ} {place place' : String} {x y : Unit},
      p.unit.Numbered → q.unit.Numbered → Ahead (s :: rest) p.unit.records →
      p.unit.Covers R T q.unit → (s.replay gaveUp file place).perform p = (.ok x, p') →
      (s'.replay gaveUp' file place').perform q = (.ok y, q') →
      p'.unit.violations = [] → p'.unit.Covers R T q'.unit)
    (others : Beside σ gaveUp gaveUp' file R T Ahead rest rest') :
    Beside σ gaveUp gaveUp' file R T Ahead (s :: rest) (s' :: rest') := by
  intro p p' q q' list list' i i' x y n m ahead covers hp hq silent
  simp only [everyActIn, armsScopedIn, Bool.and_eq_true] at proofless tidy
  obtain ⟨p₁, hp₁, hp⟩ := cons_ok hp
  obtain ⟨q₁, hq₁, hq⟩ := cons_ok hq
  have n₁ := (kept proofless.1 tidy.1 n hp₁).1.numbered
  have m₁ := (kept proofless' tidy' m hq₁).1.numbered
  have silent₁ := (keptAll proofless.2 tidy.2 n₁ hp).1.silent silent
  exact others n₁ m₁ (sustains.next proofless.1 tidy.1 n ahead hp₁)
    (first n m ahead covers hp₁ hq₁ silent₁) hp hq silent

theorem Step.covers_function (sustains : Sustains σ gaveUp file R Ahead)
    {name site stop : String} {body body' rest : List Step}
    {place place' : String} (proofless : everyActIn (fun a _ => !a.isProof) body = true)
    (tidy : armsScopedIn body = true)
    (proofless' : everyActIn (fun a _ => !a.isProof) body' = true)
    (tidy' : armsScopedIn body' = true) (inner : Beside σ gaveUp gaveUp' file R T Ahead body body')
    (n : p.unit.Numbered) (m : q.unit.Numbered)
    (ahead : Ahead (.function name site stop body :: rest) p.unit.records)
    (covers : p.unit.Covers R T q.unit)
    (hp : (replay gaveUp file place (.function name site stop body)).perform p = (.ok x, p'))
    (hq : (replay gaveUp' file place' (.function name site stop body')).perform q = (.ok y, q'))
    (silent : p'.unit.violations = []) : p'.unit.Covers R T q'.unit := by
  obtain ⟨start, last, found, p₁, p₂, read, readEnd, began, walk, ended⟩ := function_ok hp
  obtain ⟨_, _, _, q₁, q₂, read', readEnd', began', walk', ended'⟩ := function_ok hq
  cases read.symm.trans read'
  cases readEnd.symm.trans readEnd'
  have kept := (keptAll proofless tidy (numbered_beginFunction n began) walk).1
  have kept' := (keptAll proofless' tidy' (numbered_beginFunction m began') walk').1
  have closed := (around_function n began kept).1
  obtain ⟨_, turns⟩ := endFunction_ok kept.numbered.queue closed ended
  -- findings are never taken back, so there was none before the function ended
  have within : Ahead body p₁.unit.records := by
    rw [records_beginFunction began]
    exact sustains.function ahead
  have inside := inner (numbered_beginFunction n began) (numbered_beginFunction m began') within
    (covers.beginFunction n m began began') walk walk' (turns.2.silent silent).1
  exact inside.endFunction kept.numbered kept'.numbered closed ended ended' silent

theorem Step.covers_block (sustains : Sustains σ gaveUp file R Ahead) {site stop : String}
    {body body' rest : List Step} {place place' : String}
    (inner : Beside σ gaveUp gaveUp' file R T Ahead body body')
    (n : p.unit.Numbered) (m : q.unit.Numbered)
    (ahead : Ahead (.block site stop body :: rest) p.unit.records)
    (covers : p.unit.Covers R T q.unit)
    (hp : (replay gaveUp file place (.block site stop body)).perform p = (.ok x, p'))
    (hq : (replay gaveUp' file place' (.block site stop body')).perform q = (.ok y, q'))
    (silent : p'.unit.violations = []) : p'.unit.Covers R T q'.unit := by
  obtain ⟨start, last, found, p₁, p₂, read, readEnd, began, walk, ended⟩ := block_ok hp
  obtain ⟨_, _, _, q₁, q₂, read', readEnd', began', walk', ended'⟩ := block_ok hq
  cases read.symm.trans read'
  cases readEnd.symm.trans readEnd'
  obtain ⟨_, _, _, _, -, -, -, turns⟩ := closeBlock_ok (exitBlock_ok ended)
  have within : Ahead body p₁.unit.records := by
    obtain ⟨scopes, outer, before, after⟩ := records_enterBlock began
    rw [before] at ahead
    rw [after]
    exact sustains.block ahead
  have inside := inner (numbered_enterBlock n began) (numbered_enterBlock m began') within
    (covers.enterBlock n m began began') walk walk' (turns.silent silent).1
  exact inside.exitBlock ended ended' silent

theorem Step.covers_thread (sustains : Sustains σ gaveUp file R Ahead) {tag site : String}
    {body body' rest : List Step} {place place' : String}
    (inner : Beside σ gaveUp gaveUp' file R T Ahead body body')
    (n : p.unit.Numbered) (m : q.unit.Numbered)
    (ahead : Ahead (.thread tag site body :: rest) p.unit.records)
    (covers : p.unit.Covers R T q.unit)
    (hp : (replay gaveUp file place (.thread tag site body)).perform p = (.ok x, p'))
    (hq : (replay gaveUp' file place' (.thread tag site body')).perform q = (.ok y, q'))
    (silent : p'.unit.violations = []) : p'.unit.Covers R T q'.unit := by
  obtain ⟨p₁, p₂, began, walk, ended⟩ := thread_ok hp
  obtain ⟨q₁, q₂, began', walk', ended'⟩ := thread_ok hq
  obtain ⟨_, quiet, turns⟩ := enterThread_ok began
  obtain ⟨_, quiet', turns'⟩ := enterThread_ok began'
  obtain ⟨_, quiet₂, turns₂⟩ := exitThread_ok ended
  obtain ⟨_, quiet₂', turns₂'⟩ := exitThread_ok ended'
  have within : Ahead body p₁.unit.records := by
    rw [turns.records]
    exact sustains.thread ahead
  have inside := inner (kept_quiet n quiet turns).1.numbered
    (kept_quiet m quiet' turns').1.numbered within
    (covers.quiet quiet quiet' turns turns') walk walk' (turns₂.silent silent).1
  exact inside.quiet quiet₂ quiet₂' turns₂ turns₂'

/-- One arm of a branch is taken. -/
theorem Step.covers_arm (sustains : Sustains σ gaveUp file R Ahead) {site : String}
    {arms : List (List Step)} {arm arm' rest : List Step}
    {place list' : String} {i' : Nat} (mem : arm ∈ arms)
    (proofless : everyActOn (fun a _ => !a.isProof) arms = true)
    (tidy : armsScopedOn arms = true) (inner : Beside σ gaveUp gaveUp' file R T Ahead arm arm')
    (n : p.unit.Numbered) (m : q.unit.Numbered)
    (ahead : Ahead (.branch site arms :: rest) p.unit.records)
    (covers : p.unit.Covers R T q.unit)
    (hp : (replay gaveUp file place (.branch site arms)).perform p = (.ok x, p'))
    (hq : (replayAll gaveUp' file list' i' arm').perform q = (.ok y, q'))
    (silent : p'.unit.violations = []) : p'.unit.Covers R T q'.unit := by
  obtain ⟨start, p₁, p₂, began, walk, ended⟩ := branch_ok hp
  have plain := everyActIn_of_mem proofless mem
  have confined := (armsScopedIn_of_mem tidy mem).1
  have within : Ahead arm p.unit.records := sustains.arm mem ahead
  obtain ⟨before, after, rfl⟩ := List.append_of_mem mem
  have opened := opened_beginBranch n began
  obtain ⟨p₃, p₄, f, place', n₃, covers₃, records, taken, steady, opened', late, met⟩ :=
    split_arms proofless tidy n opened covers
      (fun _ => ⟨covers.beginBranch n began, records_beginBranch n began⟩) walk
  rw [← records] at within
  have silent₄ := late.silent ((opened'.endBranch ended).2.silent silent)
  have inside := inner n₃ m within covers₃ taken hq silent₄
  -- the arm has been walked to its end, where nothing is ahead
  have joins := sustains.joins (sustains.all plain confined n₃ within taken)
  exact opened'.covers_endBranch n steady.numbered joins steady.outline steady.registry inside
    (Opened.mem_meeting met) ended

/-- A branch is passed over. -/
theorem Step.covers_skip {steps : List Step} (sustains : Sustains σ gaveUp file R Ahead)
    {site : String} {arms : List (List Step)} {place : String}
    (single : arms.length ≤ 1) (proofless : everyActOn (fun a _ => !a.isProof) arms = true)
    (tidy : armsScopedOn arms = true) (n : p.unit.Numbered) (ahead : Ahead steps p.unit.records)
    (covers : p.unit.Covers R T e)
    (hp : (replay gaveUp file place (.branch site arms)).perform p = (.ok x, p')) :
    p'.unit.Covers R T e := by
  obtain ⟨start, p₁, p₂, began, walk, ended⟩ := branch_ok hp
  have opened := opened_beginBranch n began
  have opened' := skip_arms single proofless tidy opened walk
  exact opened'.covers_endBranch n n (sustains.joins ahead) rfl rfl covers
    (opened'.entry_mem_meeting rfl) ended

/-- Beside the walk of a trace without findings, the walk of a resolution only has
tolerated ones. -/
theorem Resolves.beside [Record.Cautious R T] (sustains : Step.Sustains σ gaveUp file R Ahead)
    {steps steps' : List Step} (h : Resolves steps steps') (named : file ≠ "")
    (proofless : Step.everyActIn (fun a _ => !a.isProof) steps = true)
    (sited : Step.everyActIn (fun a site => a.isSited site) steps = true)
    (tidy : Step.armsScopedIn steps = true) :
    Step.Beside σ gaveUp gaveUp' file R T Ahead steps steps' := by
  induction h with
  | nil =>
    intro p p' q q' list list' i i' x y n m ahead covers hp hq silent
    rw [Step.replayAll] at hp hq
    cases hp
    cases hq
    exact covers
  | act way ih =>
    obtain ⟨first, rest⟩ := Step.everyActIn_cons.mp proofless
    obtain ⟨first', rest'⟩ := Step.everyActIn_cons.mp sited
    have scopes := (Step.armsScopedIn_cons.mp tidy).2
    refine .cons sustains proofless tidy first rfl ?_ (ih rest rest' scopes)
    intro p p' q q' place place' x y n m ahead covers hp hq silent
    obtain ⟨start, read, hp⟩ := Step.act_ok hp
    obtain ⟨start', read', hq⟩ := Step.act_ok hq
    cases read.symm.trans read'
    have plain := Bool.not_eq_true' _ ▸ first
    exact Act.covers plain first' named read covers n m hp hq silent
  | function inside way inner ih =>
    obtain ⟨first, rest⟩ := Step.everyActIn_cons.mp proofless
    obtain ⟨first', rest'⟩ := Step.everyActIn_cons.mp sited
    obtain ⟨scope, scopes⟩ := Step.armsScopedIn_cons.mp tidy
    have body := inside.everyActIn first
    exact .cons sustains proofless tidy body inside.armsScopedIn
      (Step.covers_function sustains first scope body inside.armsScopedIn
        (inner first first' scope))
      (ih rest rest' scopes)
  | block inside way inner ih =>
    obtain ⟨first, rest⟩ := Step.everyActIn_cons.mp proofless
    obtain ⟨first', rest'⟩ := Step.everyActIn_cons.mp sited
    obtain ⟨scope, scopes⟩ := Step.armsScopedIn_cons.mp tidy
    exact .cons sustains proofless tidy (inside.everyActIn first) inside.armsScopedIn
      (Step.covers_block sustains (inner first first' scope)) (ih rest rest' scopes)
  | thread inside way inner ih =>
    obtain ⟨first, rest⟩ := Step.everyActIn_cons.mp proofless
    obtain ⟨first', rest'⟩ := Step.everyActIn_cons.mp sited
    obtain ⟨scope, scopes⟩ := Step.armsScopedIn_cons.mp tidy
    exact .cons sustains proofless tidy (inside.everyActIn first) inside.armsScopedIn
      (Step.covers_thread sustains (inner first first' scope)) (ih rest rest' scopes)
  | arm mem taken way inner ih =>
    intro p p' q q' list list' i i' x y n m ahead covers hp hq silent
    obtain ⟨first, rest⟩ := Step.everyActIn_cons.mp proofless
    obtain ⟨first', rest'⟩ := Step.everyActIn_cons.mp sited
    obtain ⟨scope, scopes⟩ := Step.armsScopedIn_cons.mp tidy
    -- the branch is one step of the whole walk and as many of the other as its arm has
    obtain ⟨p₁, hp₁, hp⟩ := Step.cons_ok hp
    obtain ⟨q₁, hq₁, hq⟩ := Step.append_ok hq
    have arm := Step.everyActIn_of_mem first mem
    have n₁ := (Step.kept first scope n hp₁).1.numbered
    have m₁ := (Step.keptAll (taken.everyActIn arm) taken.armsScopedIn m hq₁).1.numbered
    have silent₁ := (Step.keptAll rest scopes n₁ hp).1.silent silent
    have beside :=
      inner arm (Step.everyActIn_of_mem first' mem) (Step.armsScopedIn_of_mem scope mem).1
    have covers₁ :=
      Step.covers_arm sustains mem first scope beside n m ahead covers hp₁ hq₁ silent₁
    exact ih rest rest' scopes n₁ m₁ (sustains.next first scope n ahead hp₁) covers₁ hp hq silent
  | skip single way ih =>
    intro p p' q q' list list' i i' x y n m ahead covers hp hq silent
    obtain ⟨first, rest⟩ := Step.everyActIn_cons.mp proofless
    obtain ⟨-, rest'⟩ := Step.everyActIn_cons.mp sited
    obtain ⟨scope, scopes⟩ := Step.armsScopedIn_cons.mp tidy
    obtain ⟨p₁, hp₁, hp⟩ := Step.cons_ok hp
    have n₁ := (Step.kept first scope n hp₁).1.numbered
    have covers₁ := Step.covers_skip sustains single first scope n ahead covers hp₁
    exact ih rest rest' scopes n₁ m (sustains.next first scope n ahead hp₁) covers₁ hp hq silent

end

end ResourceSafety
