import ResourceSafety.Proofs.Discharge.View

/-!
# Recorded sessions

A *recorded* session is a session with the names that were introduced into it: those of
declared symbols, declared functions and named facts, oldest first and as often as they
were introduced.  A request that is refused introduces nothing.

Sessions can be recorded because a discharger works over any solver.  Recording changes
nothing else: without the names, a discharger over recorded sessions is the discharger over
the sessions themselves (`Discharger.forget_afterAll`).
-/

namespace ResourceSafety

namespace Logic

/-- A session and the names introduced into it, oldest first. -/
structure Recorded (σ : Type) where
  /-- The session. -/
  session : σ
  /-- The names. -/
  introduced : List String := []

namespace Recorded

variable {σ α : Type}

/-- A request to the session. -/
def pass (a : Action σ α) : Action (Recorded σ) α := do
  let r ← get
  let (x, s) := a.perform r.session
  set { r with session := s }
  MonadExcept.ofExcept x

/-- A request to the session that introduces a name, unless it is refused. -/
def introduce (name : String) (a : Action σ Unit) : Action (Recorded σ) Unit := do
  pass a
  modify fun r => { r with introduced := r.introduced ++ [name] }

instance [Solver σ] : Solver (Recorded σ) where
  declareConstant name := introduce name (Solver.declareConstant name)
  declareFunction name arity := introduce name (Solver.declareFunction name arity)
  assert name fact := introduce name (Solver.assert name fact)
  check cancelled goal := pass (Solver.check cancelled goal)
  close := pass Solver.close

theorem perform_pass (a : Action σ α) (r : Recorded σ) :
    (pass a).perform r =
      ((a.perform r.session).1, { r with session := (a.perform r.session).2 }) := by
  unfold pass
  rw [Action.perform_get_bind, Action.perform_set_bind, Action.perform_ofExcept]

theorem perform_introduce (name : String) (a : Action σ Unit) (r : Recorded σ) :
    (introduce name a).perform r =
      match a.perform r.session with
      | (.ok (), s) => (.ok (), ⟨s, r.introduced ++ [name]⟩)
      | (.error fault, s) => (.error fault, ⟨s, r.introduced⟩) := by
  unfold introduce
  rw [Action.perform_bind, perform_pass]
  rcases a.perform r.session with ⟨_ | _, s⟩
  · rfl
  · rfl

theorem seen_pass (a : Action σ α) : Action.Seen session id (pass a) a := fun r => by
  rw [perform_pass]
  rcases a.perform r.session with ⟨_ | _, s⟩ <;> rfl

theorem seen_introduce (name : String) (a : Action σ Unit) :
    Action.Seen session id (introduce name a) a := fun r => by
  rw [perform_introduce]
  rcases a.perform r.session with ⟨_ | _, s⟩ <;> rfl

/-- Without the names, a recorded session is the session. -/
theorem faithful [Solver σ] : Faithful (session : Recorded σ → σ) where
  declareConstant name := seen_introduce name _
  declareFunction name _ := seen_introduce name _
  assert name _ := seen_introduce name _
  check _ _ := seen_pass _
  close := seen_pass _

end Recorded

end Logic

open Logic (Action BitBlaster Recorded SatSolver Solver)

namespace Discharger

variable {σ : Type}

/-- The discharger without the names introduced into its sessions. -/
def forget (d : Discharger (Recorded σ)) : Discharger σ where
  config := d.config
  opening cancelled := (d.opening cancelled).map Recorded.session
  session := d.session.map Recorded.session
  ended := d.ended.map Recorded.session
  nonce := d.nonce
  facts := d.facts
  handles := d.handles
  queue := d.queue
  ledger := d.ledger
  observed := d.observed

/-- Recording the names changes nothing else. -/
theorem forget_afterAll [Solver σ] (d : Discharger (Recorded σ)) (qs : List Dialogue.Request) :
    (d.afterAll qs).forget = d.forget.afterAll qs :=
  mapSession_afterAll Recorded.faithful d qs

end Discharger

namespace Dialogue

theorem discharger_step (p : Dialogue) (q : Request) :
    (p.step q).discharger = p.discharger.after q := by
  unfold step Discharger.after
  cases q with
  | fresh | push | assertShape =>
      dsimp only
      split
      next h => rw [h]
      next h => rw [h]
  | enqueue | flush | discharge => rfl

/-- The discharger of a dialogue is the one after its requests. -/
theorem discharger_run (sat : SatSolver) (config : SolverConfig) (ledger : Ledger)
    (qs : List Request) :
    (run sat config ledger qs).discharger =
      ({ config, opening := Discharger.openInProcess sat config, ledger } :
        Discharger BitBlaster).afterAll qs := by
  induction qs using List.reverseRecOn with
  | nil => rfl
  | append_singleton qs q ih =>
      rw [run_append, discharger_step, ih]
      unfold Discharger.afterAll
      rw [List.foldl_append]
      rfl

/-- Handles are called after their texts and their numbers. -/
theorem handles_afterAll_fresh (sat : SatSolver) (config : SolverConfig) (ledger : Ledger)
    (texts : List String) :
    (({ config, opening := Discharger.openInProcess sat config, ledger } :
      Discharger BitBlaster).afterAll (texts.map (.fresh false))).handles =
        texts.zipIdx.map fun t => Discharger.symbolStem t.1 ++ toString t.2 := by
  rw [← discharger_run]
  exact (run_fresh sat config ledger texts).2.1

end Dialogue

end ResourceSafety
