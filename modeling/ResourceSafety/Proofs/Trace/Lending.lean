import ResourceSafety.Proofs.Checker.Lending
import ResourceSafety.Proofs.Trace.Soundness

/-!
# Borrows on every way through a trace

Where arms meet, a shared borrow is known by its place alone, but it ends by count.  So a
way on which a value is borrowed twice at one place may have a borrow outstanding that the
whole check has lost.

On ways that borrow a name at different places this does not happen.  The places of all
shared borrows are followed along the whole walk (`Step.lentAll`): what is ahead borrows
at new places, on whatever way, and so joins lend as much as each of their arms
(`Step.sustains_lends`).  Then no way through a trace without findings borrows or moves a
borrowed value (`no_borrow_broken`).
-/

namespace ResourceSafety

open Logic (Action Solver)
open CompilationUnit
open Ownership (Record)

/-! ## The shared borrows on a way -/

/-- The name that an act lends, with the place. -/
def Act.loan? (file site : String) : Act → Option (String × Span)
  | access (.borrow false) name => (Replay.span file site).toOption.map fun s => (name, s)
  | _ => none

namespace Step

mutual

/-- The shared borrows in the step, on all of its arms. -/
def loans (file : String) : Step → List (String × Span)
  | .act what site => (what.loan? file site).toList
  | .function _ _ _ body => loansIn file body
  | .block _ _ body => loansIn file body
  | .thread _ _ body => loansIn file body
  | .branch _ arms => loansOn file arms

/-- The shared borrows in the steps. -/
def loansIn (file : String) : List Step → List (String × Span)
  | [] => []
  | s :: rest => loans file s ++ loansIn file rest

/-- The shared borrows in the arms. -/
def loansOn (file : String) : List (List Step) → List (String × Span)
  | [] => []
  | arm :: rest => loansIn file arm ++ loansOn file rest

end

variable {file : String}

theorem loansIn_append {l m : List Step} :
    loansIn file (l ++ m) = loansIn file l ++ loansIn file m := by
  induction l with
  | nil => rfl
  | cons s l ih => simp [loansIn, ih]

theorem loansIn_sublist_loansOn {arms : List (List Step)} {arm : List Step} (mem : arm ∈ arms) :
    (loansIn file arm).Sublist (loansOn file arms) := by
  induction arms with
  | nil => cases mem
  | cons a rest ih =>
    rw [loansOn]
    cases mem with
    | head => exact List.sublist_append_left _ _
    | tail _ mem => exact (ih mem).trans (List.sublist_append_right _ _)

end Step

namespace Resolves

variable {file : String} {l l' : List Step}

/-- A way has no borrows but those of the trace. -/
theorem loansIn_sublist (h : Resolves l l') :
    (Step.loansIn file l').Sublist (Step.loansIn file l) := by
  induction h with
  | nil => exact .refl _
  | act _ ih => exact (List.Sublist.refl _).append ih
  | function _ _ inner ih | block _ _ inner ih | thread _ _ inner ih => exact inner.append ih
  | arm mem _ _ inner ih =>
    rw [Step.loansIn_append]
    exact (inner.trans (Step.loansIn_sublist_loansOn mem)).append ih
  | skip _ _ ih => exact ih.trans (List.sublist_append_right _ _)

end Resolves

mutual

/-- There is a way through every step. -/
theorem Step.exists_resolves : ∀ s : Step, ∃ way, Resolves [s] way
  | .act _ _ => ⟨_, .act .nil⟩
  | .function _ _ _ body =>
    have ⟨_, inside⟩ := Step.exists_resolvesIn body
    ⟨_, .function inside .nil⟩
  | .block _ _ body =>
    have ⟨_, inside⟩ := Step.exists_resolvesIn body
    ⟨_, .block inside .nil⟩
  | .thread _ _ body =>
    have ⟨_, inside⟩ := Step.exists_resolvesIn body
    ⟨_, .thread inside .nil⟩
  | .branch _ [] => ⟨_, .skip (Nat.zero_le 1) .nil⟩
  | .branch _ (arm :: _) =>
    have ⟨_, taken⟩ := Step.exists_resolvesIn arm
    ⟨_, .arm List.mem_cons_self taken .nil⟩

theorem Step.exists_resolvesIn : ∀ steps : List Step, ∃ way, Resolves steps way
  | [] => ⟨[], .nil⟩
  | s :: rest =>
    have ⟨_, first⟩ := Step.exists_resolves s
    have ⟨_, others⟩ := Step.exists_resolvesIn rest
    ⟨_, first.append others⟩

end

namespace Step

/-- What was lent before, or is lent on some way through the steps. -/
def lentBy (file : String) (L : Set (String × Span)) (steps : List Step) : Set (String × Span) :=
  {x | x ∈ L ∨ ∃ way, Resolves steps way ∧ x ∈ loansIn file way}

/-- On every way, the steps lend at places that are different and new. -/
def LendsAnew (file : String) (L : Set (String × Span)) (steps : List Step) : Prop :=
  ∀ way, Resolves steps way → (loansIn file way).Nodup ∧ ∀ x ∈ loansIn file way, x ∉ L

/-- Every way through `body` is part of a way through `steps`. -/
def Within (file : String) (body steps : List Step) : Prop :=
  ∀ way, Resolves body way →
    ∃ whole, Resolves steps whole ∧ (loansIn file way).Sublist (loansIn file whole)

variable {file : String} {L : Set (String × Span)} {body steps rest : List Step} {s : Step}

theorem subset_lentBy : L ⊆ lentBy file L steps := fun _ mem => .inl mem

namespace Within

theorem lendsAnew (h : Within file body steps) (anew : LendsAnew file L steps) :
    LendsAnew file L body := by
  intro way through
  obtain ⟨whole, resolves, part⟩ := h way through
  obtain ⟨distinct, new⟩ := anew whole resolves
  exact ⟨distinct.sublist part, fun x mem => new x (part.subset mem)⟩

theorem lentBy_subset (h : Within file body steps) : lentBy file L body ⊆ lentBy file L steps := by
  rintro x (old | ⟨way, through, mem⟩)
  · exact .inl old
  · obtain ⟨whole, resolves, part⟩ := h way through
    exact .inr ⟨whole, resolves, part.subset mem⟩

/-- A way through the first steps goes on to the end. -/
theorem append (steps : List Step) (h : Within file body steps) :
    Within file body (steps ++ rest) := by
  intro way through
  obtain ⟨whole, resolves, part⟩ := h way through
  obtain ⟨way', resolves'⟩ := exists_resolvesIn rest
  refine ⟨_, resolves.append resolves', part.trans ?_⟩
  rw [loansIn_append]
  exact List.sublist_append_left _ _

theorem first : Within file [s] (s :: rest) :=
  append [s] fun way through => ⟨way, through, .refl _⟩

theorem function {name site stop : String} :
    Within file body (.function name site stop body :: rest) :=
  append [.function name site stop body] fun way through =>
    ⟨[.function name site stop way], .function through .nil, by simp [loansIn, loans]⟩

theorem block {site stop : String} : Within file body (.block site stop body :: rest) :=
  append [.block site stop body] fun way through =>
    ⟨[.block site stop way], .block through .nil, by simp [loansIn, loans]⟩

theorem thread {tag site : String} : Within file body (.thread tag site body :: rest) :=
  append [.thread tag site body] fun way through =>
    ⟨[.thread tag site way], .thread through .nil, by simp [loansIn, loans]⟩

theorem arm {site : String} {arms : List (List Step)} (mem : body ∈ arms) :
    Within file body (.branch site arms :: rest) :=
  append [.branch site arms] fun way through =>
    ⟨way ++ [], .arm mem through .nil, by simp⟩

end Within

/-- What is ahead of the first step lends anew, whatever way that step went. -/
theorem LendsAnew.tail (h : LendsAnew file L (s :: rest)) :
    LendsAnew file (lentBy file L [s]) rest := by
  intro way through
  constructor
  · obtain ⟨first, taken⟩ := exists_resolves s
    have distinct := (h _ (taken.append through)).1
    rw [loansIn_append] at distinct
    exact distinct.of_append_right
  · rintro x mem (old | ⟨first, taken, early⟩)
    · obtain ⟨first, taken⟩ := exists_resolves s
      refine (h _ (taken.append through)).2 x ?_ old
      rw [loansIn_append]
      exact List.mem_append_right _ mem
    · have distinct := (h _ (taken.append through)).1
      rw [loansIn_append] at distinct
      exact List.disjoint_of_nodup_append distinct early mem

theorem lentBy_tail_subset :
    lentBy file (lentBy file L [s]) rest ⊆ lentBy file L (s :: rest) := by
  rintro x (early | ⟨way, through, mem⟩)
  · exact Within.first.lentBy_subset early
  · obtain ⟨first, taken⟩ := exists_resolves s
    refine .inr ⟨_, taken.append through, ?_⟩
    rw [loansIn_append]
    exact List.mem_append_right _ mem

end Step

/-! ## The walk of a whole trace -/

section

variable {σ : Type} [Solver σ] {p q : Replay σ} {gaveUp : Juncture → Bool} {file place list : String}
  {i : Nat} {x : Unit} {L : Set (String × Span)}

theorem Act.lent {what : Act} {cancelled : Bool} {site : String} {start : Span}
    (proofless : what.isProof = false)
    (read : Replay.span file site = .ok start) (n : p.unit.Numbered)
    (anew : Step.LendsAnew file L [.act what site]) (lent : Lent L p.unit.records)
    (h : (what.perform cancelled start).perform p = (.ok x, q)) :
    Lent (Step.lentBy file L [.act what site]) q.unit.records := by
  have more : L ⊆ Step.lentBy file L [.act what site] := Step.subset_lentBy
  cases what with
  | declare name type =>
    obtain ⟨t, -, h⟩ := Action.ofExcept_bind_ok h
    obtain ⟨_, h⟩ := Replay.discard_ok h
    exact (lent.declare (Replay.request_ok h)).mono more
  | access kind name =>
    obtain ⟨_, h⟩ := Replay.discard_ok h
    refine lent.access n more (fun lends => ?_) (Replay.request_ok h)
    subst lends
    -- the act itself is the only way, and lends at its place
    have here : (name, start) ∈ Step.loansIn file [.act (.access (.borrow false) name) site] := by
      simp [Step.loansIn, Step.loans, Act.loan?, read, Except.toOption]
    exact ⟨(anew _ (.act .nil)).2 _ here, .inr ⟨_, .act .nil, here⟩⟩
  | release name => exact (lent.release n (Replay.request_ok h)).mono more
  | use name =>
    obtain ⟨_, h⟩ := Replay.discard_ok h
    exact (lent.capabilityAccess (Replay.request_ok h)).mono more
  | consume name =>
    obtain ⟨_, h⟩ := Replay.discard_ok h
    exact (lent.capabilityAccess (Replay.request_ok h)).mono more
  | share name =>
    obtain ⟨_, h⟩ := Replay.discard_ok h
    exact (lent.capabilityAccess (Replay.request_ok h)).mono more
  | sync =>
    obtain ⟨c, -, turns⟩ := sync_ok (Replay.request_ok h)
    rw [turns.records]
    exact lent.mono more
  | fresh | assertShape | proveRange | proveShape => cases proofless

mutual

/-- The walk of a step that lends anew. -/
theorem Step.lent : ∀ {s : Step} {place : String} {p q : Replay σ} {L : Set (String × Span)},
    s.everyAct (fun a _ => !a.isProof) = true → s.armsScoped = true → p.unit.Numbered →
    LendsAnew file L [s] → Lent L p.unit.records →
    (s.replay gaveUp file place).perform p = (.ok x, q) →
    Lent (lentBy file L [s]) q.unit.records
  | .act what site, place, p, q, L, proofless, tidy, n, anew, held, h => by
    obtain ⟨start, read, h⟩ := act_ok h
    exact Act.lent (by simpa [everyAct] using proofless) read n anew held h
  | .function name site stop body, place, p, q, L, proofless, tidy, n, anew, held, h => by
    obtain ⟨start, last, found, p₁, p₂, -, -, began, inner, ended⟩ := function_ok h
    have proofless : everyActIn (fun a _ => !a.isProof) body = true := by
      simpa [everyAct] using proofless
    have tidy : armsScopedIn body = true := by simpa [armsScoped] using tidy
    have m := numbered_beginFunction n began
    have kept := (keptAll proofless tidy m inner).1
    have begun : Lent L p₁.unit.records := records_beginFunction began ▸ held.begin
    have walked := lentAll proofless tidy m (Within.function.lendsAnew anew) begun inner
    exact (walked.endFunction kept.numbered (around_function n began kept).1 ended).mono
      Within.function.lentBy_subset
  | .block site stop body, place, p, q, L, proofless, tidy, n, anew, held, h => by
    obtain ⟨start, last, found, p₁, p₂, -, -, began, inner, ended⟩ := block_ok h
    have begun : Lent L p₁.unit.records := by
      obtain ⟨scopes, outer, before, after⟩ := records_enterBlock began
      rw [before] at held
      exact after ▸ held.enter
    have walked := lentAll (by simpa [everyAct] using proofless) (by simpa [armsScoped] using tidy)
      (numbered_enterBlock n began) (Within.block.lendsAnew anew) begun inner
    exact (walked.exitBlock ended).mono Within.block.lentBy_subset
  | .thread tag site body, place, p, q, L, proofless, tidy, n, anew, held, h => by
    obtain ⟨p₁, p₂, began, inner, ended⟩ := thread_ok h
    obtain ⟨c, quiet, turns⟩ := enterThread_ok began
    obtain ⟨c', quiet', turns'⟩ := exitThread_ok ended
    have begun : Lent L p₁.unit.records := turns.records ▸ held
    have walked := lentAll (by simpa [everyAct] using proofless) (by simpa [armsScoped] using tidy)
      (kept_quiet n quiet turns).1.numbered (Within.thread.lendsAnew anew) begun inner
    rw [turns'.records]
    exact walked.mono Within.thread.lentBy_subset
  | .branch site arms, place, p, q, L, proofless, tidy, n, anew, held, h => by
    obtain ⟨start, p₁, p₂, began, inner, ended⟩ := branch_ok h
    have more : L ⊆ lentBy file L [.branch site arms] := subset_lentBy
    obtain ⟨f, opened, ends, walked⟩ := lentArms (M := lentBy file L [.branch site arms])
      (by simpa [everyAct] using proofless) (by simpa [armsScoped] using tidy)
      (fun arm mem => ⟨(Within.arm mem).lendsAnew anew, (Within.arm mem).lentBy_subset⟩)
      n held (opened_beginBranch n began) (fun m mem => absurd mem List.not_mem_nil)
      (records_beginBranch n began ▸ held.mono more)
      (fun _ => records_beginBranch n began) inner
    exact walked.endBranch n (held.mono more) opened ends ended

/-- The walk of steps that lend anew. -/
theorem Step.lentAll : ∀ {steps : List Step} {list : String} {i : Nat} {p q : Replay σ}
    {L : Set (String × Span)},
    everyActIn (fun a _ => !a.isProof) steps = true → armsScopedIn steps = true →
    p.unit.Numbered → LendsAnew file L steps → Lent L p.unit.records →
    (replayAll gaveUp file list i steps).perform p = (.ok x, q) →
    Lent (lentBy file L steps) q.unit.records
  | [], list, i, p, q, L, proofless, tidy, n, anew, held, h => by
    rw [replayAll] at h
    cases h
    exact held.mono subset_lentBy
  | s :: rest, list, i, p, q, L, proofless, tidy, n, anew, held, h => by
    simp only [everyActIn, armsScopedIn, Bool.and_eq_true] at proofless tidy
    obtain ⟨p₁, first, h⟩ := cons_ok h
    have m := (kept proofless.1 tidy.1 n first).1.numbered
    have walked := lent proofless.1 tidy.1 n (Within.first.lendsAnew anew) held first
    exact (lentAll proofless.2 tidy.2 m anew.tail walked h).mono lentBy_tail_subset

/-- The walk of arms, each of which lends anew. -/
theorem Step.lentArms {e : CompilationUnit σ} {outer : List Fork} :
    ∀ {arms : List (List Step)} {place : String} {i : Nat} {p q : Replay σ} {f : Fork}
    {L M : Set (String × Span)},
    everyActOn (fun a _ => !a.isProof) arms = true → armsScopedOn arms = true →
    (∀ arm ∈ arms, LendsAnew file L arm ∧ lentBy file L arm ⊆ M) →
    e.Numbered → Lent L e.records → e.Opened p.unit f outer → Ends M e f.arms →
    Lent M p.unit.records → (i = 0 → p.unit.records = e.records) →
    (replayArms gaveUp file place i arms).perform p = (.ok x, q) →
    ∃ f', e.Opened q.unit f' outer ∧ Ends M e f'.arms ∧ Lent M q.unit.records
  | [], place, i, p, q, f, L, M, proofless, tidy, anew, n, entry, opened, ends, held, begun, h => by
    rw [replayArms] at h
    cases h
    exact ⟨f, opened, ends, held⟩
  | arm :: rest, place, i, p, q, f, L, M, proofless, tidy, anew, n, entry, opened, ends, held,
      begun, h => by
    simp only [everyActOn, armsScopedOn, Bool.and_eq_true, Bool.not_eq_true'] at proofless tidy
    obtain ⟨p₁, p₂, next, inner, others⟩ := arm_ok h
    -- each arm begins with the records that the branch began with
    obtain ⟨f₁, opened₁, ends₁, same₁⟩ : ∃ f₁, e.Opened p₁.unit f₁ outer ∧ Ends M e f₁.arms ∧
        p₁.unit.records = e.records := by
      split at next
      next first =>
        subst next
        exact ⟨f, opened, ends, begun first⟩
      next =>
        exact ⟨_, (opened.nextArm next).1, ends.finishArm opened held,
          opened.records_nextArm n next⟩
    obtain ⟨fresh, less⟩ := anew arm List.mem_cons_self
    obtain ⟨kept, same⟩ := keptAll proofless.1 tidy.1.2 opened₁.numbered inner
    have walked := lentAll proofless.1 tidy.1.2 opened₁.numbered fresh (same₁ ▸ entry) inner
    exact lentArms proofless.2 tidy.2 (fun a mem => anew a (List.mem_cons_of_mem _ mem)) n entry
      (opened₁.walk kept (same tidy.1.1)) ends₁ (walked.mono less)
      (fun none => absurd none (Nat.succ_ne_zero i)) others

end

/-- Where all that is ahead lends anew, joins lend as much as each of their arms. -/
theorem Step.sustains_lends (file : String) : Sustains σ gaveUp file Record.Lends
    fun steps l => ∃ L, Lent L l ∧ LendsAnew file L steps where
  next := by
    rintro s rest place p q x proofless tidy n ⟨L, held, anew⟩ h
    exact ⟨_, lent proofless tidy n (Within.first.lendsAnew anew) held h, anew.tail⟩
  function := fun ⟨L, held, anew⟩ => ⟨L, held.begin, Within.function.lendsAnew anew⟩
  block := fun ⟨L, held, anew⟩ => ⟨L, held.enter, Within.block.lendsAnew anew⟩
  thread := fun ⟨L, held, anew⟩ => ⟨L, held, Within.thread.lendsAnew anew⟩
  arm := fun mem ⟨L, held, anew⟩ => ⟨L, held, (Within.arm mem).lendsAnew anew⟩
  joins := fun ⟨_, held, _⟩ s ms r mr =>
    Ownership.Tracker.mergeRecord_lends (held s ms r mr).distinct

end

/-! ## Checks -/

section

variable {σ : Type} [Solver σ] {d : Draft} {t : Trace} {config : CheckerConfig} {run : String}
  {opening : Bool → Except Fault σ} {gaveUp gaveUp' : Juncture → Bool} {steps : List Step}
  {found : List Violation}

/-- When the check of a trace has no finding, and no way through the trace borrows a name twice
at one place, then none of them borrows or moves a value against a borrow. -/
theorem no_borrow_broken (read : d.trace = .ok t)
    (proofless : Step.everyActIn (fun a _ => !a.isProof) t.steps = true)
    (tidy : Step.armsScopedIn t.steps = true)
    (apart : ∀ steps, Resolves t.steps steps → (Step.loansIn t.unit steps).Nodup)
    (whole : t.findings? config run opening gaveUp = some [])
    (way : Resolves t.steps steps)
    (single : Trace.findings? { t with steps } config run opening gaveUp' = some found) :
    ∀ v ∈ found, v.kind ≠ .borrowExclusivity ∧
      ¬(v.kind = .borrowAfterMove ∧ v.reason = "moved while borrowed") := by
  intro v mem
  have ahead : ∃ L, Lent L [[[]]] ∧ Step.LendsAnew t.unit L t.steps :=
    ⟨∅, by simp [Lent], fun way through => ⟨apart way through, fun x _ => Set.notMem_empty x⟩⟩
  obtain none | race := tolerated_of_sustains (Step.sustains_lends t.unit) ahead read proofless
    tidy whole way single v mem
  · exact none.elim
  · simp [race]

/-- A socket is lent at a place of its own in both arms of a branch, and used by another thread
in one of them. -/
def lease : Draft where
  unit := "lease"
  types := [{ name := "Socket", capability := "socket" }]
  steps :=
    [{ operations := [.declare "s"], type := "Socket", site := "1:1" },
     { operations := [.branch
        [[{ operations := [.access (.borrow false) "s"], site := "2:1" },
          { operations := [.sync], site := "3:1" },
          { operations := [.thread "a"], site := "4:1",
            body := [{ operations := [.use "s"], site := "5:1" }] }],
         [{ operations := [.access (.borrow false) "s"], site := "6:1" },
          { operations := [.sync], site := "7:1" }]]], site := "2:1" },
     { operations := [.release "s"], site := "8:1" },
     { operations := [.consume "s"], site := "9:1" },
     { operations := [.access .move "s"], site := "10:1" }]

/-- The trace of `lease`. -/
def leaseTrace : Trace where
  unit := "lease"
  source := ""
  types := [{ name := "Socket", capability := "socket" }]
  steps :=
    [.act (.declare "s" "Socket") "1:1",
     .branch "2:1"
      [[.act (.access (.borrow false) "s") "2:1", .act .sync "3:1",
        .thread "a" "4:1" [.act (.use "s") "5:1"]],
       [.act (.access (.borrow false) "s") "6:1", .act .sync "7:1"]],
     .act (.release "s") "8:1", .act (.consume "s") "9:1", .act (.access .move "s") "10:1"]

/-- The way through `lease` that takes the first arm. -/
def leaseWay : List Step :=
  .act (.declare "s" "Socket") "1:1" ::
    ([.act (.access (.borrow false) "s") "2:1", .act .sync "3:1",
      .thread "a" "4:1" [.act (.use "s") "5:1"]] ++
     [.act (.release "s") "8:1", .act (.consume "s") "9:1", .act (.access .move "s") "10:1"])

/-- The first arm of `lease` has a race that the whole check has not, but its borrow ended
before the move. -/
theorem no_borrow_broken_lease : lease.trace = .ok leaseTrace ∧
    (∀ steps, Resolves leaseTrace.steps steps → (Step.loansIn "lease" steps).Nodup) ∧
    leaseTrace.findings? {} "" bare Juncture.never = some [] ∧ Resolves leaseTrace.steps leaseWay ∧
    ∃ found, found ≠ [] ∧
      Trace.findings? { leaseTrace with steps := leaseWay } {} "" bare Juncture.never = some found ∧
      ∀ v ∈ found, v.kind ≠ .borrowExclusivity ∧
        ¬(v.kind = .borrowAfterMove ∧ v.reason = "moved while borrowed") := by
  have read : lease.trace = .ok leaseTrace := rfl
  have apart : ∀ steps, Resolves leaseTrace.steps steps → (Step.loansIn "lease" steps).Nodup := by
    have places : Step.loansIn "lease" leaseTrace.steps =
        [("s", .point "lease" 2 1), ("s", .point "lease" 6 1)] := by
      decide +kernel
    intro steps way
    refine List.Nodup.sublist way.loansIn_sublist ?_
    rw [places]
    decide
  have whole : leaseTrace.findings? {} "" bare Juncture.never = some [] := by
    exact Trace.findings?_of_evaluate (by decide +kernel)
  have way : Resolves leaseTrace.steps leaseWay :=
    .act (.arm (.head _) (.act (.act (.thread (.act .nil) .nil))) (.act (.act (.act .nil))))
  have single : Trace.findings? { leaseTrace with steps := leaseWay } {} "" bare Juncture.never =
      some [{ Violation.against .concurrentUse "s" (.point "lease" 9 1) (.point "lease" 5 1)
        with
          threads := ("a", "main")
          reason := "accessed from a and main without synchronization" }] := by
    exact Trace.findings?_of_evaluate (by decide +kernel)
  exact ⟨read, apart, whole, way, _, List.cons_ne_nil _ _, single,
    no_borrow_broken read rfl rfl apart whole way single⟩

/-- A value is read in one arm of a branch, and borrowed twice at one place in the other.  The
join keeps one borrow for the place, and the release after it ends that one. -/
def twins : Draft where
  unit := "twins"
  steps :=
    [{ operations := [.declare "x"], type := "int", site := "1:1" },
     { operations := [.branch
        [[{ operations := [.access .read "x"], site := "2:1" }],
         [{ operations := [.access (.borrow false) "x"], site := "3:1" },
          { operations := [.access (.borrow false) "x"], site := "3:1" }]]], site := "2:1" },
     { operations := [.release "x"], site := "4:1" },
     { operations := [.access .move "x"], site := "5:1" }]

/-- The trace of `twins`. -/
def twinsTrace : Trace where
  unit := "twins"
  source := ""
  types := []
  steps :=
    [.act (.declare "x" "int") "1:1",
     .branch "2:1"
      [[.act (.access .read "x") "2:1"],
       [.act (.access (.borrow false) "x") "3:1", .act (.access (.borrow false) "x") "3:1"]],
     .act (.release "x") "4:1",
     .act (.access .move "x") "5:1"]

/-- The way through `twins` that takes the second arm. -/
def twinsWay : List Step :=
  .act (.declare "x" "int") "1:1" ::
    ([.act (.access (.borrow false) "x") "3:1", .act (.access (.borrow false) "x") "3:1"] ++
      [.act (.release "x") "4:1", .act (.access .move "x") "5:1"])

/-- The whole check of `twins` has no finding, but its second arm leaves one of the two borrows
outstanding when the value is moved. -/
theorem borrow_broken_at_one_place : twins.trace = .ok twinsTrace ∧
    Step.everyActIn (fun a _ => !a.isProof) twinsTrace.steps = true ∧
    Step.armsScopedIn twinsTrace.steps = true ∧
    twinsTrace.findings? {} "" bare Juncture.never = some [] ∧ Resolves twinsTrace.steps twinsWay ∧
    ∃ v, Trace.findings? { twinsTrace with steps := twinsWay } {} "" bare Juncture.never = some [v] ∧
      v.kind = .borrowAfterMove ∧ v.reason = "moved while borrowed" := by
  have read : twins.trace = .ok twinsTrace := rfl
  have whole : twinsTrace.findings? {} "" bare Juncture.never = some [] := by
    exact Trace.findings?_of_evaluate (by decide +kernel)
  have way : Resolves twinsTrace.steps twinsWay :=
    .act (.arm (.tail _ (.head _)) (.act (.act .nil)) (.act (.act .nil)))
  have single : Trace.findings? { twinsTrace with steps := twinsWay } {} "" bare Juncture.never =
      some [{ Violation.against .borrowAfterMove "x" (.point "twins" 5 1) (.point "twins" 3 1)
        with reason := "moved while borrowed" }] := by
    exact Trace.findings?_of_evaluate (by decide +kernel)
  exact ⟨read, rfl, rfl, whole, way, _, single, rfl, rfl⟩

end

end ResourceSafety
