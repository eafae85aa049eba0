import ResourceSafety.Proofs.Trace.Resolution

/-!
# Ways that can be walked

Steps *echo* two conditions on units when there is one way through them that leads, from whatever
unit of the first condition, to a unit of the second without a fault.  An echo is put together
from the requests that the steps make, as the walk itself is: a branch echoes what one of its arms
echoes.
-/

namespace ResourceSafety

open Logic (Action Solver)

/-! ## Requests without a fault -/

namespace Replay

variable {σ α : Type} {q q' : Replay σ} {v : CompilationUnit σ} {x : α}

theorem perform_request {a : Action (CompilationUnit σ) α} (h : a.perform q.unit = (.ok x, v)) :
    (request a).perform q = (.ok x, { q with unit := v }) := by
  rw [request, Action.perform_get_bind]
  simp only [h, Action.perform_modify_bind, Action.perform_ofExcept]

theorem perform_closing {a : StateM (CompilationUnit σ) Sweep} {found : List Violation}
    (h : a.run q.unit = ((found, none), v)) :
    (closing a).perform q = (.ok (), { q with unit := v }) := by
  rw [closing, Action.perform_get_bind]
  simp only [h, Action.perform_modify_bind]
  rfl

theorem perform_located {place : String} {a : Action (Replay σ) α}
    (h : a.perform q = (.ok x, q')) : (located place a).perform q = (.ok x, q') := by
  rw [located, Action.perform_tryCatch, h]

theorem perform_discard {a : Action (Replay σ) α} (h : a.perform q = (.ok x, q')) :
    (discard a).perform q = (.ok ⟨⟩, q') := by
  show Action.perform ((fun _ => PUnit.unit) <$> a) q = _
  rw [map_eq_pure_bind]
  exact Action.perform_bind_ok h

end Replay

/-! ## Echoes -/

section

variable {σ : Type} [Solver σ] {file : String}

/-- The steps are walked without a fault from every unit with `A` to one with `B`. -/
def Step.Leads (file : String) (steps : List Step) (A B : CompilationUnit σ → Prop) : Prop :=
  ∀ (q : Replay σ) (list : String) (i : Nat), A q.unit →
    ∃ q', (replayAll Juncture.never file list i steps).perform q = (.ok (), q') ∧ B q'.unit

/-- One way through the steps leads from every unit with `A` to one with `B`. -/
def Step.Echoes (file : String) (steps : List Step) (A B : CompilationUnit σ → Prop) : Prop :=
  ∃ way, Resolves steps way ∧ Leads file way A B

namespace Step

variable {A A' B B' C : CompilationUnit σ → Prop} {steps body rest : List Step} {s : Step}
  {what : Act} {name site stop : String} {start last : Span}

theorem perform_append {list : String} {i : Nat} {p q r : Replay σ}
    (h : (replayAll Juncture.never file list i steps).perform p = (.ok (), q))
    (h' : (replayAll Juncture.never file list (i + steps.length) rest).perform q = (.ok (), r)) :
    (replayAll Juncture.never file list i (steps ++ rest)).perform p = (.ok (), r) := by
  induction steps generalizing p i with
  | nil =>
    rw [replayAll] at h
    cases h
    exact h'
  | cons s steps ih =>
    obtain ⟨p₁, first, h⟩ := cons_ok h
    rw [List.length_cons, Nat.add_comm steps.length, ← Nat.add_assoc] at h'
    rw [List.cons_append, replayAll]
    exact (Action.perform_bind_ok first).trans (ih h h')

namespace Leads

theorem mono (h : Leads file steps A B) (before : ∀ u, A' u → A u) (after : ∀ u, B u → B' u) :
    Leads file steps A' B' := fun q list i hq =>
  have ⟨q', run, hq'⟩ := h q list i (before _ hq)
  ⟨q', run, after _ hq'⟩

theorem nil (h : ∀ u, A u → B u) : Leads file [] A B := fun q _ _ hq =>
  ⟨q, by rw [replayAll]; rfl, h _ hq⟩

theorem append (h : Leads file steps A B) (h' : Leads file rest B C) :
    Leads file (steps ++ rest) A C := fun q list i hq =>
  have ⟨_, run, hq'⟩ := h q list i hq
  have ⟨r, run', hr⟩ := h' _ list (i + steps.length) hq'
  ⟨r, perform_append run run', hr⟩

/-- One step is walked at whatever place. -/
theorem single (h : ∀ (q : Replay σ) (place : String), A q.unit →
      ∃ q', (s.replay Juncture.never file place).perform q = (.ok (), q') ∧ B q'.unit) :
    Leads file [s] A B := by
  intro q list i hq
  obtain ⟨q', run, hq'⟩ := h q (itemPlace list i) hq
  refine ⟨q', ?_, hq'⟩
  rw [replayAll, replayAll]
  exact Action.perform_bind_ok run

theorem act (read : Replay.span file site = .ok start)
    (h : ∀ q : Replay σ, A q.unit →
      ∃ q', (what.perform false start).perform q = (.ok (), q') ∧ B q'.unit) :
    Leads file [.act what site] A B := by
  refine single fun q place hq => ?_
  obtain ⟨q', run, hq'⟩ := h q hq
  refine ⟨q', ?_, hq'⟩
  rw [replay]
  exact Replay.perform_located ((Action.perform_answer_bind read).trans run)

/-- Something is opened, the inner steps are walked, and it is closed again. -/
theorem enclosed {first : Span → Action (CompilationUnit σ) Unit}
    {closing : Span → StateM (CompilationUnit σ) Sweep} (read : Replay.span file site = .ok start)
    (readEnd : Replay.endSpan file start stop = .ok last)
    (opens : ∀ u, A u → ∃ v, (first start).perform u = (.ok (), v) ∧ A' v)
    (inner : Leads file body A' B')
    (closes : ∀ u, B' u → ∃ found v, (closing last).run u = ((found, none), v) ∧ B v)
    (q : Replay σ) (place : String) (hq : A q.unit) : ∃ q', (do
      let start ← Replay.located place do
        let start ← MonadExcept.ofExcept (Replay.span file site)
        Replay.request (first start)
        return start
      replayAll Juncture.never file (bodyPlace place) 0 body
      Replay.located place do
        let stop ← MonadExcept.ofExcept (Replay.endSpan file start stop)
        Replay.closing (closing stop)).perform q = (.ok (), q') ∧ B q'.unit := by
  obtain ⟨v, opened, hv⟩ := opens _ hq
  obtain ⟨q₁, walked, hq₁⟩ := inner { q with unit := v } (bodyPlace place) 0 hv
  obtain ⟨found, w, closed, hw⟩ := closes _ hq₁
  refine ⟨{ q₁ with unit := w }, ?_, hw⟩
  rw [Action.perform_bind_ok (Replay.perform_located ((Action.perform_answer_bind read).trans
    (Action.perform_bind_ok (Replay.perform_request opened)))), Action.perform_bind_ok walked]
  exact Replay.perform_located
    ((Action.perform_answer_bind readEnd).trans (Replay.perform_closing closed))

end Leads

namespace Echoes

theorem mono (h : Echoes file steps A B) (before : ∀ u, A' u → A u) (after : ∀ u, B u → B' u) :
    Echoes file steps A' B' :=
  have ⟨way, resolves, leads⟩ := h
  ⟨way, resolves, leads.mono before after⟩

theorem nil (h : ∀ u, A u → B u) : Echoes file [] A B := ⟨[], .nil, .nil h⟩

theorem cons (first : Echoes file [s] A B) (others : Echoes file rest B C) :
    Echoes file (s :: rest) A C :=
  have ⟨_, resolves, leads⟩ := first
  have ⟨_, resolves', leads'⟩ := others
  ⟨_, resolves.append resolves', leads.append leads'⟩

theorem act (read : Replay.span file site = .ok start)
    (h : ∀ q : Replay σ, A q.unit →
      ∃ q', (what.perform false start).perform q = (.ok (), q') ∧ B q'.unit) :
    Echoes file [.act what site] A B :=
  ⟨_, .act .nil, .act read h⟩

theorem function (read : Replay.span file site = .ok start)
    (readEnd : Replay.endSpan file start stop = .ok last)
    (opens : ∀ u, A u →
      ∃ v, (CompilationUnit.beginFunction name start).perform u = (.ok (), v) ∧ A' v)
    (inner : Echoes file body A' B')
    (closes : ∀ u, B' u →
      ∃ found v, (CompilationUnit.endFunction (fun _ => false) last).run u = ((found, none), v) ∧ B v) :
    Echoes file [.function name site stop body] A B := by
  obtain ⟨way, resolves, leads⟩ := inner
  refine ⟨_, .function resolves .nil, .single fun q place hq => ?_⟩
  rw [replay]
  exact Leads.enclosed read readEnd opens leads closes q place hq

theorem block (read : Replay.span file site = .ok start)
    (readEnd : Replay.endSpan file start stop = .ok last)
    (opens : ∀ u, A u → ∃ v, (CompilationUnit.enterBlock start).perform u = (.ok (), v) ∧ A' v)
    (inner : Echoes file body A' B')
    (closes : ∀ u, B' u →
      ∃ found v, (CompilationUnit.exitBlock last).run u = ((found, none), v) ∧ B v) :
    Echoes file [.block site stop body] A B := by
  obtain ⟨way, resolves, leads⟩ := inner
  refine ⟨_, .block resolves .nil, .single fun q place hq => ?_⟩
  rw [replay]
  exact Leads.enclosed read readEnd opens leads closes q place hq

theorem arm {arms : List (List Step)} {arm : List Step} (mem : arm ∈ arms)
    (h : Echoes file arm A B) : Echoes file [.branch site arms] A B :=
  have ⟨_, resolves, leads⟩ := h
  ⟨_, .arm mem resolves .nil, leads.append (.nil fun _ => id)⟩

theorem skip {arms : List (List Step)} (single : arms.length ≤ 1) (h : ∀ u, A u → B u) :
    Echoes file [.branch site arms] A B :=
  ⟨_, .skip single .nil, .nil h⟩

/-- A finding that is there before the steps is there after them. -/
theorem withFinding (h : Echoes file steps A B)
    (proofless : everyActIn (fun a _ => !a.isProof) steps = true)
    (numbered : ∀ u, A u → u.Numbered) :
    Echoes file steps (fun u => A u ∧ u.violations ≠ []) fun u => B u ∧ u.violations ≠ [] := by
  obtain ⟨way, resolves, leads⟩ := h
  refine ⟨way, resolves, fun q list i hq => ?_⟩
  obtain ⟨q', run, hq'⟩ := leads q list i hq.1
  have kept := (keptAll (resolves.everyActIn proofless) resolves.armsScopedIn
    (numbered _ hq.1) run).1
  exact ⟨q', run, hq', fun clean => hq.2 (kept.silent clean)⟩

end Echoes

end Step

end

end ResourceSafety
