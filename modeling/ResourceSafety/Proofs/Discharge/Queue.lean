import ResourceSafety.Proofs.Discharge.Dialogue

/-!
# What becomes of queued obligations

Deciding an obligation asks the session once.  The answer settles its *fate*: a note
for the ledger, a violation for the flush, or the fault that ends the flush
(`Discharger.Decides`).  Up to the answer the queue and the ledger stay as they are
(`Discharger.Consults`).  Requests that decide nothing leave the ledger alone too
(`Discharger.Tells`).

A flush decides the obligations at the head of the queue in turn (`Discharger.Works`),
until none is left, the caller has given up or the session fails
(`Discharger.Ends`).  From what one flush does (`Discharger.exists_works`) follows what
a sequence of calls does: the obligations that were accepted are the ones that were
started, followed by the ones that wait (`Discharger.accepted_eq_started_append_queue`).

Nothing is assumed of the session, or of the state in which the calls begin.
-/

namespace ResourceSafety

open Logic (Action Formula Model Solver Term Verdict)

namespace Discharger

open Logic.Action

variable {σ : Type} {d e : Discharger σ}

/-! ## Asking and telling -/

/-- The states differ at most in the session and in what was observed of it. -/
structure Consults (d e : Discharger σ) : Prop where
  facts : e.facts = d.facts
  handles : e.handles = d.handles
  queue : e.queue = d.queue
  ledger : e.ledger = d.ledger

theorem Consults.refl (d : Discharger σ) : Consults d d := ⟨rfl, rfl, rfl, rfl⟩

theorem Consults.trans {f : Discharger σ} (first : Consults d e) (second : Consults e f) :
    Consults d f :=
  ⟨second.facts.trans first.facts, second.handles.trans first.handles,
    second.queue.trans first.queue, second.ledger.trans first.ledger⟩

theorem moves_nextName (text : String) :
    Moves Consults (nextName text : Action (Discharger σ) String) :=
  fun _ => ⟨rfl, rfl, rfl, rfl⟩

/-- Nothing was decided: no handle is lost, and the ledger is as it was. -/
structure Tells (d e : Discharger σ) : Prop where
  handles : d.handles ⊆ e.handles
  ledger : e.ledger = d.ledger

theorem Tells.refl (d : Discharger σ) : Tells d d := ⟨List.Subset.refl _, rfl⟩

theorem Tells.trans {f : Discharger σ} (first : Tells d e) (second : Tells e f) : Tells d f :=
  ⟨List.Subset.trans first.handles second.handles, second.ledger.trans first.ledger⟩

theorem Consults.tells (h : Consults d e) : Tells d e := by
  refine ⟨?_, h.ledger⟩
  rw [h.handles]
  exact List.Subset.refl _

theorem tells_enqueue (o : Obligation) : Moves Tells (enqueue o : Action (Discharger σ) Unit) := by
  intro d
  unfold enqueue
  rw [perform_bind, perform_requireStated]
  cases d.refusal? o with
  | some fault => exact .refl d
  | none => exact ⟨List.Subset.refl _, rfl⟩

variable [Solver σ]

theorem moves_ensure (cancelled : Bool) :
    Moves Consults (ensure cancelled : Action (Discharger σ) σ) := by
  intro d
  unfold ensure
  rw [perform_get_bind]
  cases d.session with
  | some s => exact .refl d
  | none =>
      dsimp only
      rw [perform_bind, perform_ofExcept]
      cases d.opening cancelled with
      | error fault => exact .refl d
      | ok s =>
          dsimp only
          rcases (Solver.declareFunction shapeFunction 2).perform s with ⟨fault | _, t⟩
          · exact ⟨rfl, rfl, rfl, rfl⟩
          · exact ⟨rfl, rfl, rfl, rfl⟩

theorem moves_request {α : Type} (cancelled : Bool) (a : Action σ α) :
    Moves Consults (request cancelled a : Action (Discharger σ) α) := by
  refine .bind .trans (moves_ensure cancelled) fun s d => ?_
  dsimp only
  rw [perform_modify_bind, perform_ofExcept]
  exact ⟨rfl, rfl, rfl, rfl⟩

theorem moves_refutation (o : Obligation) :
    Moves Consults (refutation o : Action (Discharger σ) (Formula Term × String)) := by
  unfold refutation
  cases o.subject with
  | literal n =>
      refine .bind .trans (moves_nextName "v") fun name => ?_
      exact .bind .trans (moves_request false _) fun _ => .refl
  | handle symbol => exact .refl
  | expression text => exact .refl
  | missing => exact .refl

/-- Asks the session whether the goal of an obligation can hold. -/
def ask (o : Obligation) : Action (Discharger σ) (Formula Term × String × Verdict) := do
  let _ ← ensure false
  let (goal, binding) ← refutation o
  let s ← ensure false
  let (r, s) := (Solver.check false goal).perform s
  modify fun d =>
    { d with session := some s, observed := d.observed ++ [.decision d.config.profile] }
  match r with
  | .error fault => throw (.within ("discharge " ++ o.render) fault)
  | .ok verdict => return (goal, binding, verdict)

theorem moves_ask (o : Obligation) :
    Moves Consults (ask o : Action (Discharger σ) (Formula Term × String × Verdict)) := by
  refine .bind .trans (moves_ensure false) fun _ => ?_
  refine .bind .trans (moves_refutation o) fun goal => ?_
  refine .bind .trans (moves_ensure false) fun s d => ?_
  dsimp only
  rw [perform_modify_bind]
  cases ((Solver.check false goal.1).perform s).1 with
  | error fault => exact ⟨rfl, rfl, rfl, rfl⟩
  | ok verdict => exact ⟨rfl, rfl, rfl, rfl⟩

/-- To decide an obligation is to ask for it and to write down what the verdict means. -/
theorem perform_solve_eq (o : Obligation) (d : Discharger σ) :
    (solve o).perform d =
      match (ask o).perform d with
      | (.error fault, e) => (.error fault, e)
      | (.ok (goal, binding, verdict), e) =>
        (.ok (conclude o binding verdict), record o goal (conclude o binding verdict).1 verdict e) := by
  unfold solve ask
  rw [perform_bind, perform_bind]
  rcases (ensure false).perform d with ⟨fault | s, d₁⟩
  · rfl
  · dsimp only
    rw [perform_bind, perform_bind]
    rcases (refutation o).perform d₁ with ⟨fault | ⟨goal, binding⟩, d₂⟩
    · rfl
    · dsimp only
      rw [perform_bind, perform_bind]
      rcases (ensure false).perform d₂ with ⟨fault | s, d₃⟩
      · rfl
      · dsimp only
        rcases (Solver.check false goal).perform s with ⟨fault | verdict, s⟩ <;> rfl

/-! ## Requests that decide nothing -/

theorem tells_request {α : Type} (cancelled : Bool) (a : Action σ α) :
    Moves Tells (request cancelled a : Action (Discharger σ) α) :=
  (moves_request cancelled a).imp fun _ _ => Consults.tells

theorem tells_pushConstraint (cancelled : Bool) (fact : Formula Term) :
    Moves Tells (pushConstraint cancelled fact : Action (Discharger σ) Unit) := by
  intro d
  unfold pushConstraint
  rw [perform_get_bind]
  dsimp only
  cases fact.symbols.find? (!d.handles.contains ·) with
  | some name => exact .refl d
  | none =>
      dsimp only
      rw [perform_get_bind]
      split
      next => exact .refl d
      next =>
        rw [perform_get_bind]
        exact (tells_request cancelled _).bind .trans (fun _ e => ⟨List.Subset.refl _, rfl⟩) d

theorem tells_pushDimensions (cancelled : Bool) (symbol : String) (place : Nat)
    (dims : List UInt64) :
    Moves Tells (pushDimensions cancelled symbol place dims : Action (Discharger σ) Unit) := by
  induction dims generalizing place with
  | nil => exact Tells.refl
  | cons dim dims ih => exact (tells_pushConstraint cancelled _).bind .trans fun _ => ih (place + 1)

theorem tells_assertShape (cancelled : Bool) (symbol : String) (dims : List UInt64) :
    Moves Tells (assertShape cancelled symbol dims : Action (Discharger σ) Unit) := by
  intro d
  unfold assertShape
  rw [perform_get_bind]
  split
  · exact .refl d
  · exact tells_pushDimensions cancelled symbol 0 dims d

theorem tells_freshSymbol (cancelled : Bool) (text : String) :
    Moves Tells (freshSymbol cancelled text : Action (Discharger σ) String) := by
  have consults {α : Type} {a : Action (Discharger σ) α} (h : Moves Consults a) : Moves Tells a :=
    h.imp fun _ _ => Consults.tells
  refine (consults (moves_ensure cancelled)).bind .trans fun _ => ?_
  refine (consults (moves_nextName text)).bind .trans fun name => ?_
  refine (tells_request cancelled _).bind .trans fun _ => ?_
  have added : Moves Tells (modify fun d : Discharger σ =>
      { d with handles := d.handles ++ [name] } : Action (Discharger σ) PUnit) :=
    fun d => ⟨List.subset_append_left d.handles [name], rfl⟩
  refine added.bind .trans fun _ => ?_
  exact (tells_pushConstraint cancelled _).bind .trans fun _ => Tells.refl

/-! ## Fates -/

/-- What an obligation that was started contributed. -/
inductive Fate
  /-- It is proved, and the ledger has a note of it. -/
  | note (note : Note)
  /-- It is refuted or not decided, and the flush has a violation for it. -/
  | violation (violation : Violation)
  /-- The session failed, and the flush ended. -/
  | fault (fault : Fault)

namespace Fate

/-- The note for the ledger. -/
def note? : Fate → Option Note
  | note n => some n
  | _ => none

/-- The violation for the flush. -/
def violation? : Fate → Option Violation
  | violation v => some v
  | _ => none

/-- The fault that ended the flush. -/
def fault? : Fate → Option Fault
  | fault f => some f
  | _ => none

end Fate

/-- The fate of an obligation decided in the state `d`, and the state that this leaves.  It is what
the session answers. -/
inductive Decides (o : Obligation) (d : Discharger σ) : Fate → Discharger σ → Prop
  | unsat {goal : Formula Term} {binding : String} {core : List String} {e : Discharger σ}
      (answer : (ask o).perform d = (.ok (goal, binding, .unsat core), e)) :
      Decides o d (.note (e.noteOf o goal core))
        { e with
          ledger := e.ledger.append (e.noteOf o goal core)
          observed := e.observed ++ [.obligation o.condition.kindName .proved] }
  | sat {goal : Formula Term} {binding : String} {model : Model} {e : Discharger σ}
      (answer : (ask o).perform d = (.ok (goal, binding, .sat model), e)) :
      Decides o d
        (.violation
          { Violation.against .proofRefuted binding o.span .zero with
            obligation := o.render, model := model.render, assignments := model
            reason := "counterexample found" })
        { e with observed := e.observed ++ [.obligation o.condition.kindName .refuted] }
  | unknown {goal : Formula Term} {binding reason : String} {e : Discharger σ}
      (answer : (ask o).perform d = (.ok (goal, binding, .unknown reason), e)) :
      Decides o d
        (.violation
          { Violation.against .solverTimeout binding o.span .zero with
            obligation := o.render, reason })
        { e with observed := e.observed ++ [.obligation o.condition.kindName .undecided] }
  | fault {fault : Fault} {e : Discharger σ} (answer : (ask o).perform d = (.error fault, e)) :
      Decides o d (.fault fault) e

/-- Deciding an obligation gives it a fate, which says what the flush has of it. -/
theorem exists_decides (o : Obligation) (d : Discharger σ) :
    ∃ fate e, Decides o d fate e ∧
      match (solve o).perform d with
      | (.error fault, f) => f = e ∧ fate = .fault fault
      | (.ok (_, v), f) => f = e ∧ fate.fault? = none ∧ fate.violation? = v := by
  rw [perform_solve_eq]
  rcases answer : (ask o).perform d with ⟨fault | ⟨goal, binding, verdict⟩, e⟩
  · exact ⟨_, _, .fault answer, rfl, rfl⟩
  · cases verdict with
    | unsat core => exact ⟨_, _, .unsat answer, rfl, rfl, rfl⟩
    | sat model => exact ⟨_, _, .sat answer, rfl, rfl, rfl⟩
    | unknown reason => exact ⟨_, _, .unknown answer, rfl, rfl, rfl⟩

/-- Of the queue and the ledger, deciding an obligation changes the ledger, by the note of the
obligation if it has one. -/
theorem Decides.books {o : Obligation} {fate : Fate} (h : Decides o d fate e) :
    e.queue = d.queue ∧ e.ledger.notes = d.ledger.notes ++ fate.note?.toList := by
  cases h with
  | unsat answer =>
      have consults := moves_ask o d
      rw [answer] at consults
      refine ⟨consults.queue, ?_⟩
      rw [← consults.ledger]
      rfl
  | sat answer | unknown answer | fault answer =>
      have consults := moves_ask o d
      rw [answer] at consults
      refine ⟨consults.queue, ?_⟩
      rw [← consults.ledger]
      exact (List.append_nil _).symm

/-! ## Flushes -/

/-- The obligations at the head of the queue are taken off it and decided, one after the other. -/
inductive Works : Discharger σ → List (Obligation × Fate) → Discharger σ → Prop
  | nil (d : Discharger σ) : Works d [] d
  | cons {d e f : Discharger σ} {o : Obligation} {rest : List Obligation} {fate : Fate}
      {started : List (Obligation × Fate)} (head : d.queue = o :: rest) (decides : Decides o d fate e)
      (works : Works { e with queue := rest } started f) : Works d ((o, fate) :: started) f

/-- How a flush ends that started some obligations and left the state `e`. -/
inductive Ends (gaveUp : Nat → Bool) (e : Discharger σ) :
    List (Obligation × Fate) → Option Fault → Prop
  /-- Every obligation was decided. -/
  | finished {started : List (Obligation × Fate)} (decided : ∀ s ∈ started, s.2.fault? = none)
      (queue : e.queue = []) : Ends gaveUp e started none
  /-- The caller had given up before the next one. -/
  | cancelled {started : List (Obligation × Fate)} (decided : ∀ s ∈ started, s.2.fault? = none)
      (queue : e.queue ≠ []) (cancelled : gaveUp started.length = true) :
      Ends gaveUp e started (some .cancelled)
  /-- The session failed at the last one that was started. -/
  | failed {started : List (Obligation × Fate)} {o : Obligation} {fault : Fault}
      (decided : ∀ s ∈ started, s.2.fault? = none) :
      Ends gaveUp e (started ++ [(o, .fault fault)]) (some fault)

omit [Solver σ] in
/-- A further obligation was decided first. -/
theorem Ends.cons {gaveUp : Nat → Bool} {started : List (Obligation × Fate)} {fault : Option Fault}
    {o : Obligation} {fate : Fate} (first : fate.fault? = none)
    (h : Ends (fun i => gaveUp (i + 1)) e started fault) :
    Ends gaveUp e ((o, fate) :: started) fault := by
  cases h with
  | finished decided queue => exact .finished (List.forall_mem_cons.mpr ⟨first, decided⟩) queue
  | cancelled decided queue cancelled =>
      exact .cancelled (List.forall_mem_cons.mpr ⟨first, decided⟩) queue cancelled
  | failed decided =>
      rw [← List.cons_append]
      exact .failed (List.forall_mem_cons.mpr ⟨first, decided⟩)

theorem exists_works_from (gaveUp : Nat → Bool) (i : Nat) (os : List Obligation)
    (d : Discharger σ) (queue : d.queue = os) :
    ∃ started found fault e, (flushFrom gaveUp i os).run d = ((found, fault), e) ∧
      Works d started e ∧ Ends (fun k => gaveUp (k + i)) e started fault ∧
      found = started.filterMap (·.2.violation?) := by
  induction os generalizing d i with
  | nil => exact ⟨[], _, _, _, rfl, .nil d, .finished (by simp) queue, rfl⟩
  | cons o rest ih =>
      rw [run_flushFrom]
      split
      next gone =>
        refine ⟨[], _, _, _, rfl, .nil d, .cancelled (by simp) (by simp [queue]) ?_, rfl⟩
        simpa using gone
      next =>
        obtain ⟨fate, e, decides, outcome⟩ := exists_decides o d
        rcases solved : (solve o).perform d with ⟨fault | ⟨_, v⟩, f⟩
        · rw [solved] at outcome
          obtain ⟨rfl, rfl⟩ := outcome
          refine ⟨[(o, .fault fault)], _, _, _, rfl, .cons queue decides (.nil _), ?_, rfl⟩
          exact Ends.failed (List.forall_mem_nil _)
        · rw [solved] at outcome
          obtain ⟨rfl, unfailed, rfl⟩ := outcome
          obtain ⟨started, found, fault, f, flushed, works, ends, rfl⟩ :=
            ih (i + 1) { f with queue := rest } rfl
          dsimp only
          rw [flushed]
          refine ⟨(o, fate) :: started, _, _, _, rfl, .cons queue decides works, ?_, ?_⟩
          · refine .cons unfailed ?_
            simpa only [Nat.add_assoc, Nat.add_comm 1] using ends
          · cases fate <;> rfl

/-- A flush works through the queue, and its violations are those of the obligations it started. -/
theorem exists_works (gaveUp : Nat → Bool) (d : Discharger σ) :
    ∃ started found fault e, (flush gaveUp).run d = ((found, fault), e) ∧
      Works d started e ∧ Ends gaveUp e started fault ∧
      found = started.filterMap (·.2.violation?) :=
  exists_works_from gaveUp 0 d.queue d rfl

/-- What was started went off the queue, in order, and the ledger has its notes. -/
theorem Works.books {started : List (Obligation × Fate)} (h : Works d started e) :
    d.queue = started.map Prod.fst ++ e.queue ∧
      e.ledger.notes = d.ledger.notes ++ started.filterMap (·.2.note?) := by
  induction h with
  | nil d => exact ⟨rfl, (List.append_nil _).symm⟩
  | @cons d e f o rest fate started head decides _ ih =>
      obtain ⟨queue, notes⟩ := ih
      obtain ⟨_, noted⟩ := decides.books
      refine ⟨?_, ?_⟩
      · rw [head, List.map_cons, List.cons_append, ← queue]
      · rw [notes]
        show e.ledger.notes ++ _ = _
        rw [noted]
        cases fate <;> simp [Fate.note?]

/-! ## Calls -/

/-- A call that queues an obligation or decides the queued ones.  `gaveUp i` says whether the caller
has given up before the obligation with number `i`. -/
inductive Call
  | enqueue (o : Obligation)
  | flush (gaveUp : Nat → Bool)

/-- What a call answers. -/
inductive Answer
  | enqueued (r : Except Fault Unit)
  | flushed (found : List Violation) (fault : Option Fault)

/-- A call, what it answered, and the states before and after it. -/
structure Served (σ : Type) where
  before : Discharger σ
  call : Call
  answer : Answer
  after : Discharger σ

/-- The discharger serves a call. -/
def serve (d : Discharger σ) : Call → Served σ
  | .enqueue o =>
    let (r, e) := (enqueue o).perform d
    ⟨d, .enqueue o, .enqueued r, e⟩
  | .flush gaveUp =>
    let ((found, fault), e) := (flush gaveUp).run d
    ⟨d, .flush gaveUp, .flushed found fault, e⟩

/-- The discharger serves calls, one after the other. -/
def serveAll (d : Discharger σ) : List Call → List (Served σ)
  | [] => []
  | c :: cs => d.serve c :: serveAll (d.serve c).after cs

/-- The state after calls. -/
def afterCalls (d : Discharger σ) (cs : List Call) : Discharger σ :=
  cs.foldl (fun d c => (d.serve c).after) d

omit [Solver σ] in
/-- The obligation that a call put in the queue. -/
def Served.accepted? (s : Served σ) : Option Obligation :=
  match s.call, s.answer with
  | .enqueue o, .enqueued (.ok _) => some o
  | _, _ => none

/-- What a call does, with the obligations that it starts.  The violations that a flush answers are
those of the obligations it started, and beyond deciding them it changes nothing. -/
inductive Settles : Served σ → List (Obligation × Fate) → Prop
  | accepted {d : Discharger σ} {o : Obligation} :
      Settles ⟨d, .enqueue o, .enqueued (.ok ()), { d with queue := d.queue ++ [o] }⟩ []
  | refused {d : Discharger σ} {o : Obligation} {fault : Fault} :
      Settles ⟨d, .enqueue o, .enqueued (.error fault), d⟩ []
  | flushed {d e : Discharger σ} {gaveUp : Nat → Bool} {started : List (Obligation × Fate)}
      {fault : Option Fault} (works : Works d started e) (ends : Ends gaveUp e started fault) :
      Settles ⟨d, .flush gaveUp, .flushed (started.filterMap (·.2.violation?)) fault, e⟩ started

theorem exists_settles (d : Discharger σ) (c : Call) : ∃ started, Settles (d.serve c) started := by
  cases c with
  | enqueue o =>
      unfold serve enqueue
      dsimp only
      rw [perform_bind, perform_requireStated]
      cases d.refusal? o with
      | some fault => exact ⟨[], .refused⟩
      | none => exact ⟨[], .accepted⟩
  | flush gaveUp =>
      obtain ⟨started, found, fault, e, flushed, works, ends, rfl⟩ := exists_works gaveUp d
      unfold serve
      dsimp only
      rw [flushed]
      exact ⟨started, .flushed works ends⟩

/-- One call keeps the books: what was accepted is what was started and what waits. -/
theorem Settles.books {s : Served σ} {started : List (Obligation × Fate)} (h : Settles s started) :
    s.before.queue ++ s.accepted?.toList = started.map Prod.fst ++ s.after.queue ∧
      s.after.ledger.notes = s.before.ledger.notes ++ started.filterMap (·.2.note?) := by
  cases h with
  | accepted => exact ⟨rfl, (List.append_nil _).symm⟩
  | refused => exact ⟨List.append_nil _, (List.append_nil _).symm⟩
  | flushed works ends =>
      obtain ⟨queue, notes⟩ := works.books
      exact ⟨(List.append_nil _).trans queue, notes⟩

theorem before_serve (d : Discharger σ) (c : Call) : (d.serve c).before = d := by
  cases c <;> rfl

/-- No obligation is lost or decided twice.  Whatever the session answers, every call settles the
obligations it starts.  Those that were in the queue or accepted by a call are, in this order, the
ones that were started, followed by the ones that are in the queue.  The ledger has the notes of
those that were started, in order, and no others. -/
theorem accepted_eq_started_append_queue (d : Discharger σ) (cs : List Call) :
    ∃ started : List (List (Obligation × Fate)),
      List.Forall₂ Settles (d.serveAll cs) started ∧
      d.queue ++ (d.serveAll cs).filterMap Served.accepted? =
        started.flatten.map Prod.fst ++ (d.afterCalls cs).queue ∧
      (d.afterCalls cs).ledger.notes =
        d.ledger.notes ++ started.flatten.filterMap (·.2.note?) := by
  induction cs generalizing d with
  | nil => exact ⟨[], .nil, List.append_nil _, (List.append_nil _).symm⟩
  | cons c cs ih =>
      obtain ⟨first, settles⟩ := d.exists_settles c
      obtain ⟨started, each, queue, notes⟩ := ih (d.serve c).after
      obtain ⟨queue', notes'⟩ := settles.books
      rw [before_serve] at queue' notes'
      refine ⟨first :: started, .cons settles each, ?_, ?_⟩
      · calc d.queue ++ (d.serveAll (c :: cs)).filterMap Served.accepted?
          _ = (d.queue ++ (d.serve c).accepted?.toList) ++
                (serveAll (d.serve c).after cs).filterMap Served.accepted? := by
              rw [serveAll, List.filterMap_cons]
              cases (d.serve c).accepted? <;> simp
          _ = first.map Prod.fst ++ (started.flatten.map Prod.fst ++
                (afterCalls (d.serve c).after cs).queue) := by
              rw [queue', List.append_assoc, queue]
          _ = (first :: started).flatten.map Prod.fst ++ (d.afterCalls (c :: cs)).queue := by
              rw [List.flatten_cons, List.map_append, List.append_assoc]
              rfl
      · show (afterCalls (d.serve c).after cs).ledger.notes = _
        rw [notes, notes', List.flatten_cons, List.filterMap_append, List.append_assoc]

end Discharger

end ResourceSafety
