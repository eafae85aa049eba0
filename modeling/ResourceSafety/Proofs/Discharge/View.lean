import ResourceSafety.Proofs.Discharge.Dialogue

/-!
# Sessions seen through a function

A session can carry more than the solver needs, such as a record of what was asked of it.  A *view*
takes what is more away.  It is faithful when every request to a session, seen through it, is the
request to what is left (`Logic.Faithful`).

A discharger works over any solver, and so it does over the larger sessions what it does over the
smaller ones (`Discharger.mapSession_afterAll`).
-/

namespace ResourceSafety

namespace Logic

variable {σ τ α β γ δ : Type}

/-! ## Actions seen through a function -/

/-- Seen through `view`, the action `a` does to states what `b` does, and gives the results
of `b` through `result`. -/
def Action.Seen (view : τ → σ) (result : α → β) (a : Action τ α) (b : Action σ β) : Prop :=
  ∀ t, b.perform (view t) = ((a.perform t).1.map result, view (a.perform t).2)

namespace Action.Seen

variable {view : τ → σ}

theorem pure (result : α → β) (x : α) :
    Seen view result (pure x : Action τ α) (pure (result x) : Action σ β) := fun _ => rfl

theorem throw (result : α → β) (fault : Fault) :
    Seen view result (throw fault : Action τ α) (throw fault : Action σ β) := fun _ => rfl

theorem ofExcept (result : α → β) (x : Except Fault α) :
    Seen view result (MonadExcept.ofExcept x : Action τ α)
      (MonadExcept.ofExcept (x.map result) : Action σ β) := by
  cases x <;> exact fun _ => rfl

theorem modify {f : τ → τ} {g : σ → σ} (h : ∀ t, g (view t) = view (f t)) :
    Seen view id (modify f : Action τ PUnit) (modify g : Action σ PUnit) := fun t => by
  rw [perform_modify, perform_modify, h t]
  rfl

theorem set {t : τ} {s : σ} (h : s = view t) :
    Seen view id (set t : Action τ PUnit) (set s : Action σ PUnit) := fun _ => by
  rw [perform_set, perform_set, h]
  rfl

theorem bind {first : α → β} {second : γ → δ} {a : Action τ α} {b : Action σ β}
    {k : α → Action τ γ} {l : β → Action σ δ} (h : Seen view first a b)
    (next : ∀ x, Seen view second (k x) (l (first x))) :
    Seen view second (a >>= k) (b >>= l) := by
  intro t
  rw [perform_bind, perform_bind, h t]
  rcases a.perform t with ⟨fault | x, u⟩
  · rfl
  · exact next x u

/-- The rest of an action may depend on the state it starts in. -/
theorem get_bind {result : α → β} {k : τ → Action τ α} {l : σ → Action σ β}
    (next : ∀ t, Seen view result (k t) (l (view t))) :
    Seen view result (get >>= k) (get >>= l) := fun t => by
  rw [perform_get_bind, perform_get_bind]
  exact next t t

end Action.Seen

/-- Every request to a session of the one type, seen through `view`, is that to a session of the
other. -/
structure Faithful [Solver τ] [Solver σ] (view : τ → σ) : Prop where
  declareConstant (name : String) :
    Action.Seen view id (Solver.declareConstant name) (Solver.declareConstant name)
  declareFunction (name : String) (arity : Nat) :
    Action.Seen view id (Solver.declareFunction name arity) (Solver.declareFunction name arity)
  assert (name : String) (fact : Formula Term) :
    Action.Seen view id (Solver.assert name fact) (Solver.assert name fact)
  check (cancelled : Bool) (goal : Formula Term) :
    Action.Seen view id (Solver.check cancelled goal) (Solver.check cancelled goal)
  close : Action.Seen view id Solver.close Solver.close

end Logic

open Logic (Action Faithful Formula Solver Term)

namespace Discharger

variable {σ τ : Type}

/-- The discharger with its sessions seen through a function. -/
def mapSession (view : τ → σ) (d : Discharger τ) : Discharger σ where
  config := d.config
  opening cancelled := (d.opening cancelled).map view
  session := d.session.map view
  ended := d.ended.map view
  nonce := d.nonce
  facts := d.facts
  handles := d.handles
  queue := d.queue
  ledger := d.ledger
  observed := d.observed

/-- A view takes away what was put around the sessions of a new discharger. -/
theorem mapSession_wrapped {view : τ → σ} {wrap : σ → τ} (inverse : ∀ s, view (wrap s) = s)
    {config : SolverConfig} {opening : Bool → Except Fault σ} {ledger : Ledger} :
    mapSession view
        { config, opening := fun cancelled => (opening cancelled).map wrap, ledger } =
      { config, opening, ledger } := by
  have same : (fun cancelled => ((opening cancelled).map wrap).map view) = opening := by
    funext cancelled
    cases opening cancelled with
    | error fault => rfl
    | ok s => exact congrArg Except.ok (inverse s)
  rw [mapSession]
  dsimp only
  rw [same]
  rfl

open Logic.Action (Seen)

section Views

variable {view : τ → σ}

theorem seen_nextName (text : String) :
    Seen (mapSession view) id (nextName text) (nextName text) := fun _ => rfl

theorem seen_requireStated (o : Obligation) :
    Seen (mapSession view) id (requireStated o) (requireStated o) := by
  refine .get_bind fun d => ?_
  have same : (d.mapSession view).refusal? o = d.refusal? o := rfl
  rw [same]
  rcases d.refusal? o with _ | fault
  · exact .pure _ _
  · exact .throw _ _

theorem seen_enqueue (o : Obligation) :
    Seen (mapSession view) id (enqueue o) (enqueue o) :=
  .bind (seen_requireStated o) fun _ => .modify fun _ => rfl

variable [Solver σ] [Solver τ] (faithful : Faithful view)

include faithful

theorem seen_ensure (cancelled : Bool) :
    Seen (mapSession view) view (ensure cancelled) (ensure cancelled) := by
  refine .get_bind fun d => ?_
  dsimp only [mapSession]
  rcases d.session with _ | s
  · refine .bind (.ofExcept _ _) fun s => ?_
    rw [faithful.declareFunction shapeFunction 2 s]
    rcases (Solver.declareFunction shapeFunction 2).perform s with ⟨fault | _, u⟩
    · refine .bind (.set ?_) fun _ => .throw _ _
      dsimp only
      rw [faithful.close u, mapSession, List.map_append]
      rfl
    · exact .bind (.set rfl) fun _ => .pure _ u
  · exact .pure _ s

theorem seen_request {α : Type} (cancelled : Bool) {a : Action τ α} {b : Action σ α}
    (h : Seen view id a b) :
    Seen (mapSession view) id (request cancelled a) (request cancelled b) := by
  refine .bind (seen_ensure faithful cancelled) fun s => ?_
  dsimp only
  rw [h s]
  rcases a.perform s with ⟨x, s⟩
  exact .bind (.modify fun _ => rfl) fun _ => .ofExcept _ x

theorem seen_pushConstraint (cancelled : Bool) (f : Formula Term) :
    Seen (mapSession view) id (pushConstraint cancelled f) (pushConstraint cancelled f) := by
  refine .get_bind fun d => ?_
  dsimp only [mapSession]
  rcases f.symbols.find? (!d.handles.contains ·) with _ | name
  · refine .get_bind fun d => ?_
    dsimp only [mapSession]
    split
    · exact .pure _ _
    · refine .get_bind fun d => ?_
      refine .bind (seen_request faithful cancelled (faithful.assert _ _)) fun _ => ?_
      exact .modify fun _ => rfl
  · exact .throw _ _

theorem seen_freshSymbol (cancelled : Bool) (text : String) :
    Seen (mapSession view) id (freshSymbol cancelled text) (freshSymbol cancelled text) := by
  refine .bind (seen_ensure faithful cancelled) fun _ => .bind (seen_nextName text) fun name => ?_
  refine .bind (seen_request faithful cancelled (faithful.declareConstant _)) fun _ => ?_
  refine .bind (.modify fun _ => rfl) fun _ => ?_
  exact .bind (seen_pushConstraint faithful cancelled _) fun _ => .pure _ _

theorem seen_pushDimensions (cancelled : Bool) (symbol : String) (place : Nat)
    (dims : List UInt64) :
    Seen (mapSession view) id (pushDimensions cancelled symbol place dims)
      (pushDimensions cancelled symbol place dims) := by
  induction dims generalizing place with
  | nil => exact .pure _ _
  | cons dim dims ih =>
      exact .bind (seen_pushConstraint faithful cancelled _) fun _ => ih (place + 1)

theorem seen_assertShape (cancelled : Bool) (symbol : String) (dims : List UInt64) :
    Seen (mapSession view) id (assertShape cancelled symbol dims)
      (assertShape cancelled symbol dims) := by
  refine .get_bind fun d => ?_
  dsimp only [mapSession]
  split
  · exact .throw _ _
  · exact seen_pushDimensions faithful cancelled symbol 0 dims

theorem seen_refutation (o : Obligation) :
    Seen (mapSession view) id (refutation o) (refutation o) := by
  unfold refutation
  rcases o.subject with n | symbol | text | _
  · refine .bind (seen_nextName "v") fun name => ?_
    exact .bind (seen_request faithful false (faithful.declareConstant _)) fun _ => .pure _ _
  · exact .pure _ _
  · exact .throw _ _
  · exact .throw _ _

theorem seen_solve (o : Obligation) :
    Seen (mapSession view) id (solve o) (solve o) := by
  refine .bind (seen_ensure faithful false) fun _ => ?_
  refine .bind (seen_refutation faithful o) fun ⟨goal, binding⟩ => ?_
  refine .bind (seen_ensure faithful false) fun s => ?_
  dsimp only [id]
  rw [faithful.check false goal s]
  rcases (Solver.check false goal).perform s with ⟨x, u⟩
  refine .bind (.modify fun _ => rfl) fun _ => ?_
  rcases x with fault | verdict
  · exact .throw _ _
  · exact .bind (.modify fun _ => rfl) fun _ => .pure _ _

theorem seen_discharge (cancelled : Bool) (o : Obligation) :
    Seen (mapSession view) id (discharge cancelled o) (discharge cancelled o) := by
  refine .bind (seen_requireStated o) fun _ => ?_
  dsimp only
  split
  · exact .bind (.throw id _) fun _ => seen_solve faithful o
  · exact seen_solve faithful o

theorem mapSession_flushFrom (gaveUp : Nat → Bool) (i : Nat) (os : List Obligation)
    (d : Discharger τ) :
    ((flushFrom gaveUp i os).run d).2.mapSession view =
      ((flushFrom gaveUp i os).run (d.mapSession view)).2 := by
  induction os generalizing d i with
  | nil => rfl
  | cons o rest ih =>
      rw [run_flushFrom_cons, run_flushFrom_cons, seen_solve faithful o d]
      cases gaveUp i with
      | true => rfl
      | false =>
          rcases (solve o).perform d with ⟨fault | x, e⟩
          · rfl
          · exact ih (i + 1) { e with queue := rest }

end Views

/-! ## Requests -/

section Requests

variable [Solver σ]

/-- The discharger after a request. -/
def after (d : Discharger σ) : Dialogue.Request → Discharger σ
  | .fresh cancelled text => ((freshSymbol cancelled text).perform d).2
  | .push cancelled fact => ((pushConstraint cancelled fact).perform d).2
  | .assertShape cancelled symbol dims => ((assertShape cancelled symbol dims).perform d).2
  | .enqueue o => ((enqueue o).perform d).2
  | .flush gaveUp => ((flush gaveUp).run d).2
  | .discharge cancelled o => ((discharge cancelled o).perform d).2

/-- The discharger after requests, in order. -/
def afterAll (d : Discharger σ) (qs : List Dialogue.Request) : Discharger σ := qs.foldl after d

variable [Solver τ] {view : τ → σ}

theorem mapSession_after (faithful : Faithful view) (d : Discharger τ) (q : Dialogue.Request) :
    (d.after q).mapSession view = (d.mapSession view).after q := by
  cases q with
  | fresh cancelled text =>
      exact (congrArg Prod.snd (seen_freshSymbol faithful cancelled text d)).symm
  | push cancelled fact =>
      exact (congrArg Prod.snd (seen_pushConstraint faithful cancelled fact d)).symm
  | assertShape cancelled symbol dims =>
      exact (congrArg Prod.snd (seen_assertShape faithful cancelled symbol dims d)).symm
  | enqueue o => exact (congrArg Prod.snd (seen_enqueue o d)).symm
  | flush gaveUp => exact mapSession_flushFrom faithful gaveUp 0 d.queue d
  | discharge cancelled o =>
      exact (congrArg Prod.snd (seen_discharge faithful cancelled o d)).symm

/-- A discharger does the same over sessions that carry more. -/
theorem mapSession_afterAll (faithful : Faithful view) (d : Discharger τ)
    (qs : List Dialogue.Request) :
    (d.afterAll qs).mapSession view = (d.mapSession view).afterAll qs := by
  induction qs generalizing d with
  | nil => rfl
  | cons q qs ih =>
      show ((d.after q).afterAll qs).mapSession view = ((d.mapSession view).after q).afterAll qs
      rw [ih, mapSession_after faithful]

end Requests

end Discharger

end ResourceSafety
