import ResourceSafety.Proofs.Checker.Branch
import ResourceSafety.Proofs.Trace.Form
import ResourceSafety.Trace.Replay

/-!
# Walking a trace

A replay that meets no fault is taken apart here into the requests it makes.

A trace without obligations closes everything that it opens.  So walking it keeps what
lies around the innermost scope, and steps that declare nothing in that scope keep the
whole outline of the unit.  The arms of a branch are such steps, and therefore every arm
begins and ends with the outline that the branch began with.
-/

namespace ResourceSafety

open Logic (Action Solver)
open Logic.Action (bind_ok ofExcept_bind_ok)

/-! ## Replays without a fault -/

namespace Replay

variable {σ α : Type} {p q : Replay σ}

theorem request_ok {a : Action (CompilationUnit σ) α} {x : α}
    (h : (request a).perform p = (.ok x, q)) : a.perform p.unit = (.ok x, q.unit) := by
  simp only [request, Action.perform_get_bind] at h
  rcases run : a.perform p.unit with ⟨r, u⟩
  simp only [run, Action.perform_modify_bind, Action.perform_ofExcept] at h
  cases h
  rfl

theorem closing_ok {a : StateM (CompilationUnit σ) Sweep} {x : Unit}
    (h : (closing a).perform p = (.ok x, q)) :
    ∃ found, a.run p.unit = ((found, none), q.unit) := by
  simp only [closing, Action.perform_get_bind] at h
  rcases run : a.run p.unit with ⟨⟨found, fault⟩, u⟩
  simp only [run, Action.perform_modify_bind] at h
  cases fault with
  | some fault => cases h
  | none =>
    cases h
    exact ⟨found, rfl⟩

theorem located_ok {place : String} {a : Action (Replay σ) α} {x : α}
    (h : (located place a).perform p = (.ok x, q)) : a.perform p = (.ok x, q) := by
  rw [located, Action.perform_tryCatch] at h
  rcases run : a.perform p with ⟨_ | y, p'⟩
  · rw [run] at h
    cases h
  · rw [run] at h
    exact h

theorem discard_ok {a : Action (Replay σ) α} {x : PUnit} (h : (discard a).perform p = (.ok x, q)) :
    ∃ y, a.perform p = (.ok y, q) := by
  obtain ⟨y, run, -⟩ := Action.map_ok h
  exact ⟨y, run⟩

/-- A beginning that is located: the place is read, and something is opened there. -/
theorem opening_ok {file place site : String} {a : Span → Action (CompilationUnit σ) Unit}
    {start : Span}
    (h : (located place do
      let start ← MonadExcept.ofExcept (span file site)
      request (a start)
      return start).perform p = (.ok start, q)) :
    span file site = .ok start ∧ (a start).perform p.unit = (.ok (), q.unit) := by
  obtain ⟨start', read, h⟩ := ofExcept_bind_ok (located_ok h)
  obtain ⟨_, _, opened, h⟩ := bind_ok h
  cases h
  exact ⟨read, request_ok opened⟩

/-- An end that is located: the place is read, and what was opened is closed there. -/
theorem ending_ok {file place stop : String} {start : Span} {x : Unit}
    {a : Span → StateM (CompilationUnit σ) Sweep}
    (h : (located place do
      let last ← MonadExcept.ofExcept (endSpan file start stop)
      closing (a last)).perform p = (.ok x, q)) :
    ∃ last found, endSpan file start stop = .ok last ∧
      (a last).run p.unit = ((found, none), q.unit) := by
  obtain ⟨last, read, h⟩ := ofExcept_bind_ok (located_ok h)
  obtain ⟨found, closed⟩ := closing_ok h
  exact ⟨last, found, read, closed⟩

end Replay

namespace Step

variable {σ : Type} [Solver σ] {p q : Replay σ} {gaveUp : Juncture → Bool} {file place list : String}
  {i : Nat} {x : Unit}

theorem act_ok {what : Act} {site : String}
    (h : (replay gaveUp file place (.act what site)).perform p = (.ok x, q)) :
    ∃ start, Replay.span file site = .ok start ∧
      (what.perform (gaveUp (.request place)) start).perform p = (.ok x, q) := by
  rw [replay] at h
  exact ofExcept_bind_ok (Replay.located_ok h)

/-- What functions and blocks have in common: something is opened, the inner steps are
walked, and it is closed again. -/
theorem enclosed_ok {site stop : String} {body : List Step}
    {first : Span → Action (CompilationUnit σ) Unit} {last : Span → StateM (CompilationUnit σ) Sweep}
    (h : (do
      let start ← Replay.located place do
        let start ← MonadExcept.ofExcept (Replay.span file site)
        Replay.request (first start)
        return start
      replayAll gaveUp file (bodyPlace place) 0 body
      Replay.located place do
        let stop ← MonadExcept.ofExcept (Replay.endSpan file start stop)
        Replay.closing (last stop)).perform p = (.ok x, q)) :
    ∃ start stop' found p₁ p₂, Replay.span file site = .ok start ∧
      Replay.endSpan file start stop = .ok stop' ∧
      (first start).perform p.unit = (.ok (), p₁.unit) ∧
      (replayAll gaveUp file (bodyPlace place) 0 body).perform p₁ = (.ok (), p₂) ∧
      (last stop').run p₂.unit = ((found, none), q.unit) := by
  obtain ⟨start, p₁, opened, h⟩ := bind_ok h
  obtain ⟨_, p₂, inner, h⟩ := bind_ok h
  obtain ⟨read, began⟩ := Replay.opening_ok opened
  obtain ⟨stop', found, read', ended⟩ := Replay.ending_ok h
  exact ⟨start, stop', found, p₁, p₂, read, read', began, inner, ended⟩

theorem function_ok {name site stop : String} {body : List Step}
    (h : (replay gaveUp file place (.function name site stop body)).perform p = (.ok x, q)) :
    ∃ start last found p₁ p₂, Replay.span file site = .ok start ∧
      Replay.endSpan file start stop = .ok last ∧
      (CompilationUnit.beginFunction name start).perform p.unit = (.ok (), p₁.unit) ∧
      (replayAll gaveUp file (bodyPlace place) 0 body).perform p₁ = (.ok (), p₂) ∧
      (CompilationUnit.endFunction (gaveUp <| .obligation place ·) last).run p₂.unit =
        ((found, none), q.unit) := by
  rw [replay] at h
  exact enclosed_ok h

theorem block_ok {site stop : String} {body : List Step}
    (h : (replay gaveUp file place (.block site stop body)).perform p = (.ok x, q)) :
    ∃ start last found p₁ p₂, Replay.span file site = .ok start ∧
      Replay.endSpan file start stop = .ok last ∧
      (CompilationUnit.enterBlock start).perform p.unit = (.ok (), p₁.unit) ∧
      (replayAll gaveUp file (bodyPlace place) 0 body).perform p₁ = (.ok (), p₂) ∧
      (CompilationUnit.exitBlock last).run p₂.unit = ((found, none), q.unit) := by
  rw [replay] at h
  exact enclosed_ok h

theorem thread_ok {tag site : String} {body : List Step}
    (h : (replay gaveUp file place (.thread tag site body)).perform p = (.ok x, q)) :
    ∃ p₁ p₂, (CompilationUnit.enterThread tag).perform p.unit = (.ok (), p₁.unit) ∧
      (replayAll gaveUp file (bodyPlace place) 0 body).perform p₁ = (.ok (), p₂) ∧
      CompilationUnit.exitThread.perform p₂.unit = (.ok (), q.unit) := by
  rw [replay] at h
  obtain ⟨_, p₁, first, h⟩ := bind_ok h
  obtain ⟨_, p₂, inner, h⟩ := bind_ok h
  obtain ⟨_, p₀, read, first⟩ := bind_ok (Replay.located_ok first)
  obtain ⟨_, read⟩ := Replay.discard_ok read
  rw [Action.perform_ofExcept] at read
  obtain ⟨-, rfl⟩ := Prod.mk.inj read
  exact ⟨p₁, p₂, Replay.request_ok first, inner, Replay.request_ok (Replay.located_ok h)⟩

theorem branch_ok {site : String} {arms : List (List Step)}
    (h : (replay gaveUp file place (.branch site arms)).perform p = (.ok x, q)) :
    ∃ start p₁ p₂, CompilationUnit.beginBranch.perform p.unit = (.ok (), p₁.unit) ∧
      (replayArms gaveUp file place 0 arms).perform p₁ = (.ok (), p₂) ∧
      (CompilationUnit.endBranch start).perform p₂.unit = (.ok (), q.unit) := by
  rw [replay] at h
  obtain ⟨start, p₁, first, h⟩ := bind_ok h
  obtain ⟨_, p₂, inner, h⟩ := bind_ok h
  obtain ⟨-, began⟩ := Replay.opening_ok (a := fun _ => CompilationUnit.beginBranch) first
  exact ⟨start, p₁, p₂, began, inner, Replay.request_ok (Replay.located_ok h)⟩

theorem cons_ok {s : Step} {rest : List Step}
    (h : (replayAll gaveUp file list i (s :: rest)).perform p = (.ok x, q)) :
    ∃ p₁, (replay gaveUp file (itemPlace list i) s).perform p = (.ok (), p₁) ∧
      (replayAll gaveUp file list (i + 1) rest).perform p₁ = (.ok (), q) := by
  rw [replayAll] at h
  split at h
  · cases h
  · obtain ⟨_, p₁, first, h⟩ := bind_ok h
    exact ⟨p₁, first, h⟩

theorem append_ok {l m : List Step}
    (h : (replayAll gaveUp file list i (l ++ m)).perform p = (.ok x, q)) :
    ∃ p₁, (replayAll gaveUp file list i l).perform p = (.ok (), p₁) ∧
      (replayAll gaveUp file list (i + l.length) m).perform p₁ = (.ok (), q) := by
  induction l generalizing p i with
  | nil => exact ⟨p, rfl, h⟩
  | cons s l ih =>
    obtain ⟨p₁, first, rest⟩ := cons_ok h
    obtain ⟨p₂, inner, rest⟩ := ih rest
    refine ⟨p₂, ?_, ?_⟩
    · rw [List.cons_append, replayAll] at h
      rw [replayAll]
      split at h
      · cases h
      next on =>
        rw [if_neg on]
        exact (Action.perform_bind_ok first).trans inner
    · rw [List.length_cons, Nat.add_comm l.length, ← Nat.add_assoc]
      exact rest

/-- The arms of a branch: the next arm begins, unless it is the first, and is walked. -/
theorem arm_ok {arm : List Step} {rest : List (List Step)}
    (h : (replayArms gaveUp file place i (arm :: rest)).perform p = (.ok x, q)) :
    ∃ p₁ p₂, (if i = 0 then p₁ = p else
        CompilationUnit.nextArm.perform p.unit = (.ok (), p₁.unit)) ∧
      (replayAll gaveUp file (armPlace place i) 0 arm).perform p₁ = (.ok (), p₂) ∧
      (replayArms gaveUp file place (i + 1) rest).perform p₂ = (.ok (), q) := by
  rw [replayArms] at h
  by_cases first : i = 0
  · subst first
    obtain ⟨_, p₂, inner, h⟩ := bind_ok h
    exact ⟨p, p₂, rfl, inner, h⟩
  · have later : (i != 0) = true := by simpa using first
    simp only [later, if_true] at h
    obtain ⟨_, p₁, next, h⟩ := bind_ok h
    obtain ⟨_, p₂, inner, h⟩ := bind_ok h
    refine ⟨p₁, p₂, ?_, inner, h⟩
    rw [if_neg first]
    exact Replay.request_ok (Replay.located_ok next)

end Step

/-! ## What a walk keeps -/

section

open CompilationUnit Capability.Context

variable {σ : Type} [Solver σ] {p q : Replay σ} {gaveUp : Juncture → Bool} {file place list : String}
  {i : Nat} {x : Unit}

theorem Act.kept {what : Act} {cancelled : Bool} (site : String) {start : Span}
    (proofless : what.isProof = false)
    (n : p.unit.Numbered) (h : (what.perform cancelled start).perform p = (.ok x, q)) :
    p.unit.Kept q.unit ∧
      ((Step.act what site).declares = false → q.unit.outline = p.unit.outline) := by
  cases what with
  | declare name type =>
    obtain ⟨t, -, h⟩ := ofExcept_bind_ok h
    obtain ⟨_, h⟩ := Replay.discard_ok h
    exact ⟨kept_declare n (Replay.request_ok h), nofun⟩
  | access kind name =>
    obtain ⟨_, h⟩ := Replay.discard_ok h
    exact (kept_access n (Replay.request_ok h)).imp_right fun same _ => same
  | release name => exact (kept_release n (Replay.request_ok h)).imp_right fun same _ => same
  | use name =>
    obtain ⟨_, h⟩ := Replay.discard_ok h
    exact (kept_capabilityAccess accesses_use n (Replay.request_ok h)).imp_right
      fun same _ => same
  | consume name =>
    obtain ⟨_, h⟩ := Replay.discard_ok h
    exact (kept_capabilityAccess accesses_consume n (Replay.request_ok h)).imp_right
      fun same _ => same
  | share name =>
    obtain ⟨_, h⟩ := Replay.discard_ok h
    exact (kept_capabilityAccess accesses_share n (Replay.request_ok h)).imp_right
      fun same _ => same
  | sync =>
    obtain ⟨c, quiet, turns⟩ := sync_ok (Replay.request_ok h)
    exact (kept_quiet n quiet turns).imp_right fun same _ => same
  | fresh | assertShape | proveRange | proveShape => cases proofless

mutual

theorem Step.kept : ∀ {s : Step} {place : String} {p q : Replay σ},
    s.everyAct (fun a _ => !a.isProof) = true → s.armsScoped = true → p.unit.Numbered →
    (s.replay gaveUp file place).perform p = (.ok x, q) →
    p.unit.Kept q.unit ∧ (s.declares = false → q.unit.outline = p.unit.outline)
  | .act what site, place, p, q, proofless, tidy, n, h => by
    obtain ⟨start, -, h⟩ := act_ok h
    exact Act.kept site (by simpa [everyAct] using proofless) n h
  | .function name site stop body, place, p, q, proofless, tidy, n, h => by
    obtain ⟨start, last, found, p₁, p₂, -, -, began, inner, ended⟩ := function_ok h
    have m := numbered_beginFunction n began
    have kept := (keptAll (by simpa [everyAct] using proofless) (by simpa [armsScoped] using tidy)
      m inner).1
    exact (kept_function n began kept ended).imp_right fun same _ => same
  | .block site stop body, place, p, q, proofless, tidy, n, h => by
    obtain ⟨start, last, found, p₁, p₂, -, -, began, inner, ended⟩ := block_ok h
    have m := numbered_enterBlock n began
    have kept := (keptAll (by simpa [everyAct] using proofless) (by simpa [armsScoped] using tidy)
      m inner).1
    exact (kept_block n began kept ended).imp_right fun same _ => same
  | .thread tag site body, place, p, q, proofless, tidy, n, h => by
    obtain ⟨p₁, p₂, began, inner, ended⟩ := thread_ok h
    obtain ⟨c, quiet, turns⟩ := enterThread_ok began
    obtain ⟨first, same⟩ := kept_quiet n quiet turns
    obtain ⟨kept, alike⟩ := keptAll (by simpa [everyAct] using proofless)
      (by simpa [armsScoped] using tidy) first.numbered inner
    obtain ⟨c', quiet', turns'⟩ := exitThread_ok ended
    obtain ⟨last, same'⟩ := kept_quiet kept.numbered quiet' turns'
    refine ⟨first.trans (kept.trans last), fun silent => ?_⟩
    exact same'.trans ((alike (by simpa [declares] using silent)).trans same)
  | .branch site arms, place, p, q, proofless, tidy, n, h => by
    obtain ⟨start, p₁, p₂, began, inner, ended⟩ := branch_ok h
    have opened := opened_beginBranch n began
    obtain ⟨f, opened', -, -⟩ := keptArms (by simpa [everyAct] using proofless)
      (by simpa [armsScoped] using tidy) opened inner
    obtain ⟨forks, steady⟩ := opened'.endBranch ended
    have whole := opened'.steady.trans steady
    exact ⟨whole.kept forks, fun _ => whole.outline⟩

theorem Step.keptAll : ∀ {steps : List Step} {list : String} {i : Nat} {p q : Replay σ},
    everyActIn (fun a _ => !a.isProof) steps = true → armsScopedIn steps = true →
    p.unit.Numbered → (replayAll gaveUp file list i steps).perform p = (.ok x, q) →
    p.unit.Kept q.unit ∧ (declaresIn steps = false → q.unit.outline = p.unit.outline)
  | [], list, i, p, q, proofless, tidy, n, h => by
    rw [replayAll] at h
    cases h
    exact ⟨.refl n, fun _ => rfl⟩
  | s :: rest, list, i, p, q, proofless, tidy, n, h => by
    simp only [everyActIn, armsScopedIn, Bool.and_eq_true] at proofless tidy
    obtain ⟨p₁, first, h⟩ := cons_ok h
    obtain ⟨kept, same⟩ := kept proofless.1 tidy.1 n first
    obtain ⟨kept', same'⟩ := keptAll proofless.2 tidy.2 kept.numbered h
    refine ⟨kept.trans kept', fun silent => ?_⟩
    simp only [declaresIn, Bool.or_eq_false_iff] at silent
    exact (same' silent.2).trans (same silent.1)

theorem Step.keptArms {e : CompilationUnit σ} {outer : List Fork} :
    ∀ {arms : List (List Step)} {place : String} {i : Nat} {p q : Replay σ} {f : Fork},
    everyActOn (fun a _ => !a.isProof) arms = true → armsScopedOn arms = true →
    e.Opened p.unit f outer → (replayArms gaveUp file place i arms).perform p = (.ok x, q) →
    ∃ f', e.Opened q.unit f' outer ∧ p.unit.Steady q.unit ∧
      (i ≠ 0 → f.arms ++ [p.unit.now] <+: f'.arms ++ [q.unit.now])
  | [], place, i, p, q, f, proofless, tidy, opened, h => by
    rw [replayArms] at h
    cases h
    exact ⟨f, opened, (CompilationUnit.Kept.refl opened.numbered).steady rfl,
      fun _ => List.prefix_refl _⟩
  | arm :: rest, place, i, p, q, f, proofless, tidy, opened, h => by
    simp only [everyActOn, armsScopedOn, Bool.and_eq_true, Bool.not_eq_true'] at proofless tidy
    obtain ⟨p₁, p₂, next, inner, others⟩ := arm_ok h
    by_cases first : i = 0
    · -- the first arm begins where the branch began, with nothing to rewind
      rw [if_pos first] at next
      subst next
      obtain ⟨kept, same⟩ := keptAll proofless.1 tidy.1.2 opened.numbered inner
      have walked := opened.walk kept (same tidy.1.1)
      obtain ⟨f', opened', steady, -⟩ := keptArms proofless.2 tidy.2 walked others
      exact ⟨f', opened', (kept.steady (same tidy.1.1)).trans steady,
        fun later => absurd first later⟩
    · rw [if_neg first] at next
      obtain ⟨begun, steady₁⟩ := opened.nextArm next
      obtain ⟨kept, same⟩ := keptAll proofless.1 tidy.1.2 begun.numbered inner
      have walked := begun.walk kept (same tidy.1.1)
      obtain ⟨f', opened', steady, grows⟩ := keptArms proofless.2 tidy.2 walked others
      refine ⟨f', opened', steady₁.trans ((kept.steady (same tidy.1.1)).trans steady), fun _ => ?_⟩
      have finished := opened.arms_finishArm
      rw [← finished]
      exact (List.prefix_append _ _).trans (grows (Nat.succ_ne_zero i))

end

end

end ResourceSafety
