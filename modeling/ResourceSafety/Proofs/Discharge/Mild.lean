import ResourceSafety.Proofs.Discharge.Dialogue
import ResourceSafety.Proofs.Logic.Mild

/-!
# Mild faults of a discharger

A discharger whose sessions open or are refused with a mild fault meets no other faults: not
when it is told a fact, not when it queues an obligation and not when it decides the queue.  How
it opens sessions never changes, so the condition is kept by every request.
-/

namespace ResourceSafety.Discharger

open Logic (Action Formula MildSolver Solver Term)
open Logic.Action (Fares Rests)

variable {σ : Type}

/-- No session is refused with a fault that is not mild. -/
def OpensMildly (d : Discharger σ) : Prop := ∀ cancelled, Fault.Spares (d.opening cancelled)

/-- A request that keeps the condition and meets mild faults only. -/
def Keeping {α : Type} (a : Action (Discharger σ) α) : Prop :=
  ∀ d, d.OpensMildly → Fares (fun _ e => e.OpensMildly) a d

namespace Keeping

variable {α β : Type} {a : Action (Discharger σ) α} {k : α → Action (Discharger σ) β}

theorem pure (x : α) : Keeping (pure x : Action (Discharger σ) α) := fun _ h => .pure h

theorem throw {fault : Fault} (h : fault.Mild) : Keeping (throw fault : Action (Discharger σ) α) :=
  fun _ _ => .throw h

theorem throw_bind {fault : Fault} (h : fault.Mild) :
    Keeping (MonadExcept.throw fault >>= k) := fun _ _ => .throw_bind h

theorem bind (h : Keeping a) (next : ∀ x, Keeping (k x)) : Keeping (a >>= k) :=
  fun d opens => (h d opens).bind fun x e opens' => next x e opens'

theorem get_bind {k : Discharger σ → Action (Discharger σ) β} (next : ∀ d, Keeping (k d)) :
    Keeping (get >>= k) := fun d opens => next d d opens

/-- A change of anything but how sessions are opened. -/
theorem modify {f : Discharger σ → Discharger σ} (same : ∀ d, (f d).opening = d.opening) :
    Keeping (modify f : Action (Discharger σ) PUnit) := by
  intro d opens
  refine .modify fun cancelled => ?_
  rw [same]
  exact opens cancelled

theorem answer {r : Except Fault α} (h : Fault.Spares r) :
    Keeping (MonadExcept.ofExcept r : Action (Discharger σ) α) :=
  fun _ opens => .answer h fun _ _ => opens

end Keeping

/-! ## The session -/

theorem keeping_nextName (text : String) : Keeping (σ := σ) (nextName text) :=
  fun _ opens => .get_bind (.set_bind (.pure opens))

variable [Solver σ] [MildSolver σ]

theorem keeping_ensure (cancelled : Bool) : Keeping (σ := σ) (ensure cancelled) := by
  intro d opens
  refine .get_bind ?_
  split
  · exact .pure opens
  · refine .answer_bind (opens cancelled) fun s _ => ?_
    have mild := (MildSolver.declareFunction shapeFunction 2 s).spares
    split
    · exact .set_bind (.pure opens)
    next fault _ refused => exact .set_bind (.throw (mild fault (congrArg Prod.fst refused)))

theorem keeping_request {α : Type} (cancelled : Bool) {a : Action σ α} (h : Logic.Action.Mild a) :
    Keeping (request cancelled a) :=
  .bind (keeping_ensure cancelled) fun s =>
    .bind (.modify fun _ => rfl) fun _ => .answer (h s).spares

/-! ## Facts -/

theorem keeping_pushConstraint (cancelled : Bool) (fact : Formula Term) :
    Keeping (σ := σ) (pushConstraint cancelled fact) := by
  refine .get_bind fun d => ?_
  dsimp only
  split
  · exact .throw (Fault.mild_unknownSymbol _)
  · refine .get_bind fun d => ?_
    split
    · exact .pure _
    · refine .get_bind fun d => ?_
      exact .bind (keeping_request cancelled (MildSolver.assert _ _)) fun _ => .modify fun _ => rfl

theorem keeping_freshSymbol (cancelled : Bool) (text : String) :
    Keeping (σ := σ) (freshSymbol cancelled text) :=
  .bind (keeping_ensure cancelled) fun _ => .bind (keeping_nextName text) fun name =>
    .bind (keeping_request cancelled (MildSolver.declareConstant name)) fun _ =>
      .bind (.modify fun _ => rfl) fun _ =>
        .bind (keeping_pushConstraint cancelled (handleRange name)) fun _ => .pure name

theorem keeping_pushDimensions (cancelled : Bool) (symbol : String) (dims : List UInt64) :
    ∀ i, Keeping (σ := σ) (pushDimensions cancelled symbol i dims) := by
  induction dims with
  | nil => exact fun _ => .pure _
  | cons d ds ih =>
    intro i
    rw [pushDimensions]
    exact .bind (keeping_pushConstraint cancelled _) fun _ => ih (i + 1)

theorem keeping_assertShape (cancelled : Bool) (symbol : String) (dims : List UInt64) :
    Keeping (σ := σ) (assertShape cancelled symbol dims) := by
  refine .get_bind fun d => ?_
  split
  · exact .throw_bind (Fault.mild_unknownSymbol symbol)
  · exact keeping_pushDimensions cancelled symbol dims 0

/-! ## Obligations -/

omit [Solver σ] [MildSolver σ]

theorem mild_of_refusal? {d : Discharger σ} {o : Obligation} {f : Fault} (h : d.refusal? o = some f) :
    f.Mild := by
  unfold refusal? at h
  split at h
  · cases h
  · split at h
    · cases h
    · cases h
      exact Fault.mild_unknownSymbol _
  · cases h
    exact Fault.mild_unsupportedSubject _

theorem keeping_enqueue (o : Obligation) : Keeping (σ := σ) (enqueue o) := by
  refine .bind (.get_bind fun d => ?_) fun _ => .modify fun _ => rfl
  split
  next refused => exact .throw (mild_of_refusal? refused)
  next => exact .pure _

variable [Solver σ] [MildSolver σ]

theorem keeping_refutation (o : Obligation) : Keeping (σ := σ) (refutation o) := by
  unfold refutation
  split
  · exact .bind (keeping_nextName "v") fun name =>
      .bind (keeping_request false (MildSolver.declareConstant name)) fun _ => .pure _
  · exact .pure _
  · exact .throw (Fault.mild_unsupportedSubject _)

theorem keeping_solve (o : Obligation) : Keeping (σ := σ) (solve o) := by
  refine .bind (keeping_ensure false) fun _ => .bind (keeping_refutation o) fun (goal, binding) =>
    .bind (keeping_ensure false) fun s => ?_
  have mild := (MildSolver.check false goal s).spares
  refine .bind (.modify fun _ => rfl) fun _ => ?_
  split
  next fault refused => exact .throw (mild fault refused)
  next verdict _ => exact .bind (.modify fun _ => rfl) fun _ => .pure _

theorem rests_flushFrom (gaveUp : Nat → Bool) (os : List Obligation) :
    ∀ (i : Nat) (d : Discharger σ), d.OpensMildly →
      Rests OpensMildly (flushFrom gaveUp i os) d := by
  induction os with
  | nil => exact fun _ _ opens => opens
  | cons o rest ih =>
    intro i d opens
    have solved := keeping_solve o d opens
    unfold Fares at solved
    unfold Rests
    rw [run_flushFrom]
    cases gaveUp i with
    | true => exact show Fault.cancelled.Mild from Fault.mild_of_no_code rfl
    | false =>
      simp only [Bool.false_eq_true, if_false]
      rcases run : (solve o).perform d with ⟨fault | ⟨_, v⟩, e⟩
      · rw [run] at solved
        exact solved
      · rw [run] at solved
        exact ih (i + 1) { e with queue := rest } solved

theorem rests_flush (gaveUp : Nat → Bool) {d : Discharger σ} (opens : d.OpensMildly) :
    Rests OpensMildly (flush gaveUp) d :=
  rests_flushFrom gaveUp d.queue 0 d opens

end ResourceSafety.Discharger
