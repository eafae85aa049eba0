import ResourceSafety.Discharge.Profile
import ResourceSafety.Proofs.Logic.Action

/-!
# Mild faults

A fault is *mild* when its code blames neither a closing without an opening nor a unit that
is finished.  A run *fares well* when it ends with a mild fault, or with an answer and a state
as a postcondition asks for.  What a fault leaves behind does not matter, since no walk goes on
after one.

There is a rule for each way of putting actions together.  With them every request to a session
is seen to meet mild faults only, for the in-process session and for an external one.
-/

namespace ResourceSafety

/-- The fault blames no missing opening and no finished unit. -/
def Fault.Mild (f : Fault) : Prop :=
  f.code? ≠ some "SCOPE_UNDERFLOW" ∧ f.code? ≠ some "UNIT_FINISHED"

namespace Fault

/-- A place does not change what a fault blames. -/
theorem Mild.within {f : Fault} (h : f.Mild) (place : String) : (within place f).Mild := h

/-- A fault without a code blames nothing. -/
theorem mild_of_no_code {f : Fault} (h : f.code? = none) : f.Mild := by
  simp [Mild, h]

theorem mild_unknownBinding (name : String) : (unknownBinding name).Mild := by
  simp [Mild, code?, card?]

theorem mild_duplicateBinding (name : String) : (duplicateBinding name).Mild := by
  simp [Mild, code?, card?]

theorem mild_noActiveBorrow (name : String) : (noActiveBorrow name).Mild := by
  simp [Mild, code?, card?]

theorem mild_unsupportedSubject (subject : String) : (unsupportedSubject subject).Mild := by
  simp [Mild, code?, card?]

theorem mild_unknownSymbol (symbol : String) : (unknownSymbol symbol).Mild := by
  simp [Mild, code?, card?]

theorem mild_solverUnavailable (details : String) (cause : Option String) :
    (solverUnavailable details cause).Mild := by
  simp [Mild, code?, card?]

/-- An answer is refused with a mild fault at most. -/
def Spares {α : Type} (r : Except Fault α) : Prop := ∀ f, r = .error f → f.Mild

theorem spares_ok {α : Type} (x : α) : Spares (.ok x) := by
  intro f refused
  cases refused

theorem spares_error {α : Type} {f : Fault} (h : f.Mild) : Spares (α := α) (.error f) := by
  intro g same
  exact Except.error.inj same ▸ h

theorem spares_bind {α β : Type} {r : Except Fault α} {k : α → Except Fault β} (h : Spares r)
    (next : ∀ x, Spares (k x)) : Spares (r >>= k) := by
  cases r with
  | error f => exact spares_error (h f rfl)
  | ok x => exact next x

theorem spares_map {α β : Type} {r : Except Fault α} (g : α → β) (h : Spares r) :
    Spares (r.map g) := by
  cases r with
  | error f => exact spares_error (h f rfl)
  | ok x => exact spares_ok _

end Fault

namespace Logic

namespace Action

variable {σ α β : Type} {Q : α → σ → Prop} {R : β → σ → Prop} {a : Action σ α}
  {k : α → Action σ β} {s : σ}

/-- The run ends with a mild fault, or as the postcondition says. -/
def Fares (Q : α → σ → Prop) (a : Action σ α) (s : σ) : Prop :=
  match a.perform s with
  | (.ok x, t) => Q x t
  | (.error fault, _) => fault.Mild

namespace Fares

theorem pure {x : α} (h : Q x s) : Fares Q (pure x) s := h

theorem throw {fault : Fault} (h : fault.Mild) : Fares Q (throw fault : Action σ α) s := h

theorem bind (h : Fares Q a s) (next : ∀ x t, Q x t → Fares R (k x) t) : Fares R (a >>= k) s := by
  unfold Fares at h ⊢
  rw [perform_bind]
  rcases run : a.perform s with ⟨fault | x, t⟩
  · rw [run] at h
    exact h
  · rw [run] at h
    exact next x t h

theorem throw_bind {fault : Fault} (h : fault.Mild) {k : α → Action σ β} :
    Fares R (MonadExcept.throw fault >>= k) s :=
  bind (Q := fun _ _ => False) (throw h) fun _ _ never => never.elim

theorem get_bind {k : σ → Action σ β} (next : Fares R (k s) s) : Fares R (get >>= k) s := next

theorem set_bind {t : σ} {k : PUnit → Action σ β} (next : Fares R (k ⟨⟩) t) :
    Fares R (set t >>= k) s := next

theorem modify_bind {f : σ → σ} {k : PUnit → Action σ β} (next : Fares R (k ⟨⟩) (f s)) :
    Fares R (modify f >>= k) s := next

theorem modify {P : PUnit → σ → Prop} {f : σ → σ} (h : P ⟨⟩ (f s)) :
    Fares P (modify f : Action σ PUnit) s := h

theorem answer {r : Except Fault α} (mild : Fault.Spares r) (h : ∀ x, r = .ok x → Q x s) :
    Fares Q (MonadExcept.ofExcept r : Action σ α) s := by
  unfold Fares
  rw [perform_ofExcept]
  cases r with
  | error fault => exact mild fault rfl
  | ok x => exact h x rfl

theorem answer_bind {r : Except Fault α} (mild : Fault.Spares r)
    (next : ∀ x, r = .ok x → Fares R (k x) s) : Fares R (MonadExcept.ofExcept r >>= k) s :=
  (answer (Q := fun x t => r = .ok x ∧ t = s) mild fun _ h => ⟨h, rfl⟩).bind
    fun x _ h => h.2 ▸ next x h.1

theorem tryCatch {f : Fault → Action σ α} (h : Fares Q a s)
    (handled : ∀ fault t, fault.Mild → Fares Q (f fault) t) : Fares Q (tryCatch a f) s := by
  unfold Fares at h ⊢
  rw [perform_tryCatch]
  rcases run : a.perform s with ⟨fault | x, t⟩
  · rw [run] at h
    exact handled fault t h
  · rw [run] at h
    exact h

theorem map {f : α → β} (h : Fares (fun x t => R (f x) t) a s) : Fares R (f <$> a) s := by
  rw [map_eq_pure_bind]
  exact h.bind fun _ _ => .pure

/-- A run that fares well has a result that spares. -/
theorem spares (h : Fares Q a s) : Fault.Spares (a.perform s).1 := by
  intro f refused
  unfold Fares at h
  rcases run : a.perform s with ⟨fault | x, t⟩
  · rw [run] at h refused
    cases refused
    exact h
  · rw [run] at refused
    cases refused

end Fares

/-- From no state does the action meet a fault that is not mild. -/
def Mild (a : Action σ α) : Prop := ∀ s, Fares (fun _ _ => True) a s

namespace Mild

theorem pure (x : α) : Mild (pure x : Action σ α) := fun _ => .pure trivial

theorem throw {fault : Fault} (h : fault.Mild) : Mild (throw fault : Action σ α) :=
  fun _ => .throw h

theorem bind (h : Mild a) (next : ∀ x, Mild (k x)) : Mild (a >>= k) :=
  fun s => (h s).bind fun x t _ => next x t

theorem throw_bind {fault : Fault} (h : fault.Mild) {k : α → Action σ β} :
    Mild (MonadExcept.throw fault >>= k) := fun _ => .throw_bind h

theorem get_bind {k : σ → Action σ β} (next : ∀ s, Mild (k s)) : Mild (get >>= k) :=
  fun s => next s s

theorem modify (f : σ → σ) : Mild (modify f : Action σ PUnit) := fun _ => .modify trivial

theorem set (t : σ) : Mild (set t : Action σ PUnit) := fun _ => trivial

theorem answer {r : Except Fault α} (mild : Fault.Spares r) :
    Mild (MonadExcept.ofExcept r : Action σ α) := fun _ => .answer mild fun _ _ => trivial

theorem tryCatch {f : Fault → Action σ α} (h : Mild a)
    (handled : ∀ fault, fault.Mild → Mild (f fault)) : Mild (tryCatch a f) :=
  fun s => (h s).tryCatch fun fault t mild => handled fault mild t

end Mild

/-- The closing ends with a mild fault, or with a state as the postcondition says. -/
def Rests (P : σ → Prop) (a : StateM σ (α × Option Fault)) (s : σ) : Prop :=
  match (a.run s).1.2 with
  | none => P (a.run s).2
  | some fault => fault.Mild

end Action

open Logic.Action

/-- Every request to a session meets mild faults only. -/
class MildSolver (σ : Type) [Solver σ] : Prop where
  declareConstant : ∀ name, Mild (Solver.declareConstant name : Action σ Unit)
  declareFunction : ∀ name arity, Mild (Solver.declareFunction name arity : Action σ Unit)
  assert : ∀ name f, Mild (Solver.assert name f : Action σ Unit)
  check : ∀ cancelled goal, Mild (Solver.check cancelled goal : Action σ Verdict)

/-! ## The in-process session -/

namespace BitBlaster

theorem mild_build {α : Type} (m : Build α) : Mild (build m) := fun _ => trivial

theorem mild_remember (key f : String) (args : List Bits) : Mild (remember key f args) :=
  .bind (mild_build _) fun _ => .get_bind fun _ => .bind (mild_build _) fun _ =>
    .bind (.modify _) fun _ => .pure _

mutual

theorem mild_term : ∀ t : Term, Mild (term t)
  | .literal n => by
    rw [term]
    exact .get_bind fun b => .pure _
  | .symbol name => by
    rw [term]
    refine .get_bind fun b => ?_
    split
    · exact .pure _
    · exact .throw (Fault.mild_unknownSymbol name)
  | .apply f args => by
    rw [term]
    refine .get_bind fun b => ?_
    split
    · exact .throw (Fault.mild_unknownSymbol f)
    · split
      · exact .throw_bind (Fault.mild_of_no_code rfl)
      · refine Mild.get_bind fun b => ?_
        split
        · exact .pure _
        · exact .bind (mild_terms args) fun _ => mild_remember _ _ _

theorem mild_terms : ∀ ts : List Term, Mild (terms ts)
  | [] => .pure _
  | t :: ts => by
    rw [terms]
    exact .bind (mild_term t) fun _ => .bind (mild_terms ts) fun _ => .pure _

end

theorem mild_comparison (x y : Bits) (op : Comparison) : Mild (comparison x y op) := by
  cases op with
  | eq => exact mild_build (Circuit.eqBits x y)
  | lt => exact mild_build (Circuit.ultBits x y)
  | gt => exact mild_build (Circuit.ultBits y x)
  | ne => exact .bind (mild_build (Circuit.eqBits x y)) fun _ => .pure _
  | le => exact .bind (mild_build (Circuit.ultBits y x)) fun _ => .pure _
  | ge => exact .bind (mild_build (Circuit.ultBits x y)) fun _ => .pure _
  | other n => exact .throw (Fault.mild_of_no_code rfl)

mutual

theorem mild_formula : ∀ f : Formula Term, Mild (formula f)
  | .compare op l r => by
    rw [formula]
    exact .bind (mild_term l) fun _ => .bind (mild_term r) fun _ => mild_comparison _ _ op
  | .all fs => by
    rw [formula]
    exact .bind (mild_formulas fs) fun _ => mild_build _
  | .any fs => by
    rw [formula]
    exact .bind (mild_formulas fs) fun _ => mild_build _
  | .not f => by
    rw [formula]
    exact .bind (mild_formula f) fun _ => .pure _
  | .truth b => by
    rw [formula]
    exact .get_bind fun _ => .pure _

theorem mild_formulas : ∀ fs : List (Formula Term), Mild (formulas fs)
  | [] => .pure _
  | f :: fs => by
    rw [formulas]
    exact .bind (mild_formula f) fun _ => .bind (mild_formulas fs) fun _ => .pure _

end

theorem mild_requireOpen : Mild requireOpen := by
  refine .get_bind fun b => ?_
  split
  · exact .throw (Fault.mild_solverUnavailable _ _)
  · exact .pure _

instance : MildSolver BitBlaster where
  declareConstant name := by
    refine .bind mild_requireOpen fun _ => .get_bind fun b => ?_
    split
    · exact .pure _
    · exact .bind (mild_build _) fun _ => .modify _
  declareFunction name arity := by
    refine .bind mild_requireOpen fun _ => .get_bind fun b => ?_
    split
    · split
      · exact .throw (Fault.mild_of_no_code rfl)
      · exact .pure _
    · exact .modify _
  assert name f := by
    refine .bind mild_requireOpen fun _ => .bind (mild_formula f) fun _ => ?_
    split
    · exact mild_build _
    · exact .bind (mild_build _) fun _ => .bind (mild_build _) fun _ => .modify _
  check cancelled goal := by
    refine .bind mild_requireOpen fun _ => ?_
    split
    · exact .throw_bind (Fault.mild_of_no_code rfl)
    · exact .bind (mild_formula goal) fun _ => .bind (mild_build _) fun _ =>
        .bind (mild_build _) fun _ => .get_bind fun _ => .bind (mild_build _) fun _ => .pure _

end BitBlaster

/-! ## The external session -/

namespace External

theorem mild_send (line : String) : Mild (send line) := by
  refine .get_bind fun s => ?_
  split
  · exact .throw_bind (Fault.mild_solverUnavailable _ _)
  · exact .modify _

theorem mild_receive : Mild receive := by
  refine .get_bind fun s => ?_
  dsimp only
  split
  · refine .bind (.set _) fun _ => ?_
    split
    · exact .throw (Fault.mild_of_no_code rfl)
    · exact .throw (Fault.mild_solverUnavailable _ _)
  · refine .bind (.set _) fun _ => ?_
    split
    · exact .throw_bind (Fault.mild_of_no_code rfl)
    · exact .pure _

theorem mild_requireSymbols (f : Formula Term) : Mild (requireSymbols f) := by
  refine .get_bind fun s => ?_
  dsimp only
  split
  · exact .throw (Fault.mild_unknownSymbol _)
  · exact .pure _

theorem mild_askReason : Mild askReason :=
  .tryCatch (.bind (mild_send _) fun _ => .bind mild_receive fun _ => .pure _)
    fun _ _ => .pure _

theorem mild_askVerdict : Mild askVerdict := by
  refine .bind mild_receive fun status => ?_
  split
  · refine .bind (mild_send _) fun _ => .bind mild_receive fun text => ?_
    split
    · exact .pure _
    · exact .throw (Fault.mild_of_no_code rfl)
  · refine .bind (mild_send _) fun _ => .bind mild_receive fun text => ?_
    split
    · exact .pure _
    · exact .throw (Fault.mild_of_no_code rfl)
  · exact .bind mild_askReason fun _ => .pure _
  · exact .throw (Fault.mild_of_no_code rfl)

theorem mild_decideGoal (goal : Formula Term) : Mild (decideGoal goal) := by
  refine .bind (mild_send _) fun _ => .bind (mild_send _) fun _ =>
    .tryCatch mild_askVerdict fun fault mild => ?_
  refine .get_bind fun s => ?_
  split
  · exact .pure _
  · exact .throw mild

theorem mild_popGoal : Mild popGoal := by
  refine .get_bind fun s => ?_
  split
  · exact mild_send _
  · exact .pure _

theorem mild_declareConstant (name : String) : Mild (declareConstant name) := by
  unfold declareConstant
  refine .get_bind fun s => ?_
  split
  · exact .pure _
  · exact .bind (mild_send _) fun _ => .modify _

theorem mild_declareFunction (name : String) (arity : Nat) :
    Mild (declareFunction name arity) := by
  refine .get_bind fun s => ?_
  split
  · split
    · exact .throw (Fault.mild_of_no_code rfl)
    · exact .pure _
  · exact .bind (mild_send _) fun _ => .modify _

theorem mild_assert (name : String) (f : Formula Term) : Mild (assert name f) := by
  refine .bind (mild_requireSymbols f) fun _ => ?_
  split
  · exact mild_send _
  · exact mild_send _

theorem mild_check (cancelled : Bool) (goal : Formula Term) : Mild (check cancelled goal) := by
  unfold check
  split
  · exact .throw_bind (Fault.mild_of_no_code rfl)
  · refine .bind (mild_requireSymbols goal) fun _ => .bind (mild_send _) fun _ => .bind ?_
      fun _ => .bind mild_popGoal fun _ => .pure _
    exact .tryCatch (mild_decideGoal goal) fun _ mild => .bind mild_popGoal fun _ => .throw mild

instance : MildSolver External where
  declareConstant := mild_declareConstant
  declareFunction := mild_declareFunction
  assert := mild_assert
  check := mild_check

theorem spares_reportedVersion (versions : Versions) (path : String) (program : SolverProgram)
    (cancelled : Bool) : Fault.Spares (reportedVersion versions path program cancelled) := by
  have unavailable (details : String) :
      Fault.Spares (.error (.solverUnavailable details none) : Except Fault Version) :=
    Fault.spares_error (Fault.mild_solverUnavailable _ _)
  unfold reportedVersion
  split
  · dsimp only
    split
    · exact unavailable _
    · exact unavailable _
  · dsimp only
    split
    · split
      · exact unavailable _
      · exact unavailable _
    · split
      · exact Fault.spares_ok _
      · exact unavailable _

theorem spares_checkVersion (versions : Versions) (v : Version) :
    Fault.Spares (checkVersion versions v) := by
  unfold checkVersion
  split
  · exact Fault.spares_ok _
  · exact Fault.spares_error (Fault.mild_solverUnavailable _ _)

/-- A program that cannot be used is unavailable. -/
theorem spares_start (versions : Versions) (find : String → Option SolverProgram) (path : String)
    (timeout : Nat) (cancelled : Bool) :
    Fault.Spares (start versions find path timeout cancelled) := by
  unfold start
  dsimp only
  split
  · exact Fault.spares_error (Fault.mild_solverUnavailable _ _)
  · exact Fault.spares_bind (spares_reportedVersion _ _ _ _) fun v =>
      Fault.spares_bind (spares_checkVersion _ v) fun _ => Fault.spares_ok _

end External

end Logic

/-! ## Either session -/

namespace Backend

open Logic Logic.Action

theorem mild_request {α : Type} {onSession : Action BitBlaster α} {onExternal : Action External α}
    (inside : Mild onSession) (outside : Mild onExternal) : Mild (request onSession onExternal) := by
  refine .get_bind fun b => ?_
  split
  · exact .bind (.set _) fun _ => .answer (inside _).spares
  · exact .bind (.set _) fun _ => .answer (outside _).spares

instance : MildSolver Backend where
  declareConstant name :=
    mild_request (MildSolver.declareConstant name) (MildSolver.declareConstant name)
  declareFunction name arity :=
    mild_request (MildSolver.declareFunction name arity) (MildSolver.declareFunction name arity)
  assert name f := mild_request (MildSolver.assert name f) (MildSolver.assert name f)
  check cancelled f := mild_request (MildSolver.check cancelled f) (MildSolver.check cancelled f)

/-- A session that cannot be opened leaves a mild fault. -/
theorem spares_start (sat : SatSolver) (versions : Versions)
    (find : String → Option SolverProgram) (config : SolverConfig) (cancelled : Bool) :
    Fault.Spares (start sat versions find config cancelled) := by
  unfold start
  split
  · exact Fault.spares_ok _
  · exact Fault.spares_map _ (External.spares_start _ _ _ _ _)

end Backend

end ResourceSafety
