import ResourceSafety.Proofs.Discharge.Naming

/-!
# Facts asserted in a session

A fact with the text of an earlier one is not asserted again.  That loses nothing, since formulas
about handles with one text mean the same.

A *logged* session is a session with the facts that were asserted in it and their names.  Without
the log it is the session (`Logic.Logged.faithful`), so the log of a discharger over logged sessions
says what a discharger asserts in any session (`Discharger.asserted`).  Beside it stand the facts
whose push was not refused (`Discharger.accepted`).

Between requests the log has the accepted facts that are in force, with the names of facts in order,
and the discharger remembers their texts (`Discharger.Booked`).  Only an assertion changes the log;
all else leaves it as it is (`Discharger.Leaves`).
-/

namespace ResourceSafety

namespace Logic

/-- A session and the facts asserted in it under their names, oldest first. -/
structure Logged (σ : Type) where
  /-- The session. -/
  session : σ
  /-- The names and the facts. -/
  asserted : List (String × Formula Term) := []

namespace Logged

variable {σ α : Type}

/-- A request to the session. -/
def pass (a : Action σ α) : Action (Logged σ) α := do
  let l ← get
  let (x, s) := a.perform l.session
  set { l with session := s }
  MonadExcept.ofExcept x

/-- A request to the session that asserts a fact, unless it is refused. -/
def keep (name : String) (fact : Formula Term) (a : Action σ Unit) : Action (Logged σ) Unit := do
  pass a
  modify fun l => { l with asserted := l.asserted ++ [(name, fact)] }

instance [Solver σ] : Solver (Logged σ) where
  declareConstant name := pass (Solver.declareConstant name)
  declareFunction name arity := pass (Solver.declareFunction name arity)
  assert name fact := keep name fact (Solver.assert name fact)
  check cancelled goal := pass (Solver.check cancelled goal)
  close := pass Solver.close

theorem perform_pass (a : Action σ α) (l : Logged σ) :
    (pass a).perform l =
      ((a.perform l.session).1, { l with session := (a.perform l.session).2 }) := by
  unfold pass
  rw [Action.perform_get_bind, Action.perform_set_bind, Action.perform_ofExcept]

theorem perform_keep (name : String) (fact : Formula Term) (a : Action σ Unit) (l : Logged σ) :
    (keep name fact a).perform l =
      match a.perform l.session with
      | (.ok (), s) => (.ok (), ⟨s, l.asserted ++ [(name, fact)]⟩)
      | (.error fault, s) => (.error fault, ⟨s, l.asserted⟩) := by
  unfold keep
  rw [Action.perform_bind, perform_pass]
  rcases a.perform l.session with ⟨_ | _, s⟩
  · rfl
  · rfl

theorem seen_pass (a : Action σ α) : Action.Seen session id (pass a) a := fun l => by
  rw [perform_pass]
  rcases a.perform l.session with ⟨_ | _, s⟩ <;> rfl

theorem seen_keep (name : String) (fact : Formula Term) (a : Action σ Unit) :
    Action.Seen session id (keep name fact a) a := fun l => by
  rw [perform_keep]
  rcases a.perform l.session with ⟨_ | _, s⟩ <;> rfl

/-- Without the log, a logged session is the session. -/
theorem faithful [Solver σ] : Faithful (session : Logged σ → σ) where
  declareConstant _ := seen_pass _
  declareFunction _ _ := seen_pass _
  assert name fact := seen_keep name fact _
  check _ _ := seen_pass _
  close := seen_pass _

end Logged

end Logic

open Logic (Action BitBlaster Faithful Formula Logged Solver Term clauseLearning)
open Logic.Action

/-- The facts in force have distinct texts. -/
theorem pairwise_inForce (fs : List (Formula Term)) :
    (inForce fs).Pairwise (·.render ≠ ·.render) := by
  induction fs using List.reverseRecOn with
  | nil => exact .nil
  | append_singleton fs f ih =>
      rw [inForce_append]
      split
      next => exact ih
      next new =>
        refine List.pairwise_append.mpr ⟨ih, List.pairwise_singleton _ _, fun g hg e he same => ?_⟩
        cases List.mem_singleton.mp he
        exact new (List.any_eq_true.mpr ⟨g, hg, beq_iff_eq.mpr same⟩)

namespace Discharger

/-! ## Facts that are accepted -/

/-- What is given with an answer, unless it is a refusal. -/
def unlessRefused {α β : Type} (given : α → List β) : Except Fault α → List β
  | .ok x => given x
  | .error _ => []

section Accepted

variable {σ : Type} [Solver σ]

/-- The facts about dimensions from a place on, up to the first whose push is refused. -/
def acceptedDimensions (cancelled : Bool) (symbol : String) :
    Discharger σ → Nat → List UInt64 → List (Formula Term)
  | _, _, [] => []
  | d, place, dim :: dims =>
    let fact := Dialogue.dimensionFact symbol place dim
    match (pushConstraint cancelled fact).perform d with
    | (.ok _, e) => fact :: acceptedDimensions cancelled symbol e (place + 1) dims
    | (.error _, _) => []

/-- The facts that a request pushes and that are not refused. -/
def accepted (d : Discharger σ) : Dialogue.Request → List (Formula Term)
  | .fresh cancelled text =>
    unlessRefused (fun name => [handleRange name]) ((freshSymbol cancelled text).perform d).1
  | .push cancelled fact =>
    unlessRefused (fun _ => [fact]) ((pushConstraint cancelled fact).perform d).1
  | .assertShape cancelled symbol dims =>
    if d.handles.contains symbol then acceptedDimensions cancelled symbol d 0 dims else []
  | .enqueue _ | .flush _ | .discharge _ _ => []

/-- The facts that requests push and that are not refused, oldest first. -/
def acceptedAll : Discharger σ → List Dialogue.Request → List (Formula Term)
  | _, [] => []
  | d, q :: qs => d.accepted q ++ acceptedAll (d.after q) qs

variable {τ : Type} [Solver τ] {view : τ → σ}

theorem map_id_answer {α : Type} (r : Except Fault α) : r.map id = r := by
  cases r <;> rfl

theorem acceptedDimensions_mapSession (faithful : Faithful view) (cancelled : Bool)
    (symbol : String) (d : Discharger τ) (place : Nat) (dims : List UInt64) :
    acceptedDimensions cancelled symbol (d.mapSession view) place dims =
      acceptedDimensions cancelled symbol d place dims := by
  induction dims generalizing d place with
  | nil => rfl
  | cons dim dims ih =>
      rw [acceptedDimensions, acceptedDimensions, seen_pushConstraint faithful]
      rcases (pushConstraint cancelled (Dialogue.dimensionFact symbol place dim)).perform d with
        ⟨fault | _, e⟩
      · rfl
      · exact congrArg (_ :: ·) (ih e (place + 1))

/-- The same facts are accepted over sessions that carry more. -/
theorem accepted_mapSession (faithful : Faithful view) (d : Discharger τ) (q : Dialogue.Request) :
    (d.mapSession view).accepted q = d.accepted q := by
  cases q with
  | fresh cancelled text =>
      rw [accepted, accepted, seen_freshSymbol faithful, map_id_answer]
  | push cancelled fact =>
      rw [accepted, accepted, seen_pushConstraint faithful, map_id_answer]
  | assertShape cancelled symbol dims =>
      rw [accepted, accepted, acceptedDimensions_mapSession faithful]
      rfl
  | enqueue | flush | discharge => rfl

theorem acceptedAll_mapSession (faithful : Faithful view) (d : Discharger τ)
    (qs : List Dialogue.Request) : (d.mapSession view).acceptedAll qs = d.acceptedAll qs := by
  induction qs generalizing d with
  | nil => rfl
  | cons q qs ih =>
      rw [acceptedAll, acceptedAll, accepted_mapSession faithful, ← mapSession_after faithful, ih]

end Accepted

/-! ## Formulas about handles -/

/-- The symbols that handles can have: letters, digits and underscores, with a letter first and a
digit last. -/
def isHandleName (name : String) : Bool := Logic.isName name && endsInDigit name

/-- The formula compares terms of numbers, handles and dimensions of tensors. -/
structure AboutHandles (f : Formula Term) : Prop where
  terms : ∀ t ∈ f.leaves, t.isWellFormed = true
  symbols : ∀ name ∈ f.symbols, isHandleName name = true

theorem isHandleName_symbolStem (text : String) (n : Nat) :
    isHandleName (symbolStem text ++ toString n) = true :=
  Bool.and_eq_true_iff.mpr ⟨isName_symbolStem text n, endsInDigit_numbered (symbolStem text, n)⟩

theorem AboutHandles.plain {f : Formula Term} (about : AboutHandles f) : f.Plain := fun t ht =>
  Term.plain_of_isWellFormed (about.terms t ht) fun name hn =>
    (Bool.and_eq_true_iff.mp (about.symbols name (Formula.mem_symbols ht hn))).1

/-- Formulas about handles with one text mean the same. -/
theorem AboutHandles.holdsIn_eq {f g : Formula Term} (hf : AboutHandles f) (hg : AboutHandles g)
    (text : f.render = g.render) (i : Logic.Interpretation) : f.holdsIn i = g.holdsIn i :=
  Formula.holdsIn_of_render_eq hf.plain hg.plain text i

/-! ## The log -/

section Log

variable {σ α : Type} {d e : Discharger (Logged σ)} {fs : List (Formula Term)}

/-- The facts asserted in the open session. -/
def log (d : Discharger (Logged σ)) : List (String × Formula Term) :=
  (d.session.map Logged.asserted).getD []

/-- Sessions are opened with an empty log. -/
def Fresh (d : Discharger (Logged σ)) : Prop :=
  ∀ cancelled l, d.opening cancelled = .ok l → l.asserted = []

/-- The facts and handles are the same, and so is the log. -/
structure Matches (d e : Discharger (Logged σ)) : Prop where
  opening : e.opening = d.opening
  facts : e.facts = d.facts
  handles : e.handles = d.handles
  log : e.log = d.log

theorem Matches.refl (d : Discharger (Logged σ)) : Matches d d := ⟨rfl, rfl, rfl, rfl⟩

theorem Matches.trans {e' : Discharger (Logged σ)} (first : Matches d e) (second : Matches e e') :
    Matches d e' :=
  ⟨second.opening.trans first.opening, second.facts.trans first.facts,
    second.handles.trans first.handles, second.log.trans first.log⟩

theorem Matches.fresh (matching : Matches d e) (fresh : d.Fresh) : e.Fresh := by
  unfold Fresh
  rw [matching.opening]
  exact fresh

/-- Nothing is asserted on the way. -/
def Leaves (d e : Discharger (Logged σ)) : Prop := d.Fresh → Matches d e

theorem Leaves.trans {e' : Discharger (Logged σ)} (first : Leaves d e) (second : Leaves e e') :
    Leaves d e' := fun fresh => (first fresh).trans (second ((first fresh).fresh fresh))

theorem Leaves.bind {β : Type} {a : Action (Discharger (Logged σ)) α}
    {k : α → Action (Discharger (Logged σ)) β} (first : Moves Leaves a)
    (next : ∀ x, Moves Leaves (k x)) : Moves Leaves (a >>= k) := Moves.bind .trans first next

theorem leaves_requireStated (o : Obligation) :
    Moves Leaves (requireStated o : Action (Discharger (Logged σ)) Unit) := by
  intro d _
  rw [perform_requireStated]
  split <;> exact .refl d

theorem leaves_enqueue (o : Obligation) :
    Moves Leaves (enqueue o : Action (Discharger (Logged σ)) Unit) :=
  Leaves.bind (leaves_requireStated o) fun _ _ _ => ⟨rfl, rfl, rfl, rfl⟩

variable [Solver σ]

/-- Opening a session leaves the log as it is. -/
theorem exists_ensure_matches (fresh : d.Fresh) (cancelled : Bool) :
    ∃ x e, (ensure cancelled).perform d = (x, e) ∧ Matches d e ∧
      ∀ l, x = .ok l → e.session = some l := by
  unfold ensure
  rw [perform_get_bind]
  rcases session : d.session with _ | l
  · have empty : d.log = [] := by rw [log, session]; rfl
    dsimp only
    rw [perform_bind, perform_ofExcept]
    rcases opened : d.opening cancelled with fault | l
    · exact ⟨_, d, rfl, .refl d, fun _ h => nomatch h⟩
    · have declare : (Solver.declareFunction shapeFunction 2 : Action (Logged σ) Unit).perform l =
          _ := Logged.perform_pass (Solver.declareFunction shapeFunction 2) l
      dsimp only
      rw [declare]
      rcases (Solver.declareFunction shapeFunction 2).perform l.session with ⟨fault | _, s⟩
      · exact ⟨_, _, rfl, ⟨rfl, rfl, rfl, empty.symm⟩, fun _ h => nomatch h⟩
      · refine ⟨_, _, rfl, ⟨rfl, rfl, rfl, ?_⟩, fun u hu => by cases hu; rfl⟩
        exact (fresh cancelled l opened).trans empty.symm
  · exact ⟨.ok l, d, rfl, .refl d, fun u hu => by cases hu; exact session⟩

/-- What a request to the session comes to: there is none to ask, or the session is asked and its
log is the new one. -/
theorem exists_request (fresh : d.Fresh) (cancelled : Bool) (a : Action (Logged σ) α) :
    ∃ x e, (request cancelled a).perform d = (x, e) ∧ e.opening = d.opening ∧
      e.facts = d.facts ∧ e.handles = d.handles ∧
      ((∃ fault, x = .error fault) ∧ e.log = d.log ∨
        ∃ l, l.asserted = d.log ∧ x = (a.perform l).1 ∧ e.log = (a.perform l).2.asserted) := by
  obtain ⟨x, e, ensured, same, current⟩ := exists_ensure_matches fresh cancelled
  unfold request
  rcases x with fault | l
  · rw [perform_bind_error ensured]
    exact ⟨_, e, rfl, same.opening, same.facts, same.handles, .inl ⟨⟨fault, rfl⟩, same.log⟩⟩
  · have before : l.asserted = d.log := by
      rw [← same.log, log, current l rfl]
      rfl
    rw [perform_bind_ok ensured]
    rcases asked : a.perform l with ⟨x, l'⟩
    dsimp only
    rw [perform_modify_bind, perform_ofExcept]
    refine ⟨_, _, rfl, same.opening, same.facts, same.handles, .inr ⟨l, before, ?_⟩⟩
    rw [asked]
    exact ⟨rfl, rfl⟩

/-- A request that asserts nothing leaves the log as it is. -/
theorem leaves_request {a : Action (Logged σ) α} (cancelled : Bool)
    (passes : ∀ l, (a.perform l).2.asserted = l.asserted) : Moves Leaves (request cancelled a) := by
  intro d fresh
  obtain ⟨x, e, asked, opening, facts, handles, ⟨-, same⟩ | ⟨l, before, -, after⟩⟩ :=
    exists_request fresh cancelled a
  · rw [asked]
    exact ⟨opening, facts, handles, same⟩
  · rw [asked]
    exact ⟨opening, facts, handles, after.trans ((passes l).trans before)⟩

theorem asserted_declareConstant (name : String) (l : Logged σ) :
    ((Solver.declareConstant name).perform l).2.asserted = l.asserted :=
  congrArg (·.2.asserted) (Logged.perform_pass (Solver.declareConstant name) l)

/-- An assertion is logged, unless it is refused. -/
theorem exists_assert (fresh : d.Fresh) (cancelled : Bool) (name : String) (f : Formula Term) :
    ∃ x e, (request cancelled (Solver.assert name f)).perform d = (x, e) ∧
      e.opening = d.opening ∧ e.facts = d.facts ∧ e.handles = d.handles ∧
      (x = .ok () ∧ e.log = d.log ++ [(name, f)] ∨
        (∃ fault, x = .error fault) ∧ e.log = d.log) := by
  obtain ⟨x, e, asked, opening, facts, handles, refused | ⟨l, before, answer, after⟩⟩ :=
    exists_request fresh cancelled (Solver.assert name f)
  · exact ⟨x, e, asked, opening, facts, handles, .inr refused⟩
  · have kept : (Solver.assert name f : Action (Logged σ) Unit).perform l = _ :=
      Logged.perform_keep name f (Solver.assert name f) l
    refine ⟨x, e, asked, opening, facts, handles, ?_⟩
    rw [answer, after, kept, ← before]
    rcases (Solver.assert name f).perform l.session with ⟨fault | _, s⟩
    · exact .inr ⟨⟨fault, rfl⟩, rfl⟩
    · exact .inl ⟨rfl, rfl⟩

theorem leaves_ensure (cancelled : Bool) :
    Moves Leaves (ensure cancelled : Action (Discharger (Logged σ)) (Logged σ)) := by
  intro d fresh
  obtain ⟨x, e, ensured, same, -⟩ := exists_ensure_matches fresh cancelled
  rw [ensured]
  exact same

theorem leaves_refutation (o : Obligation) :
    Moves Leaves (refutation o : Action (Discharger (Logged σ)) (Formula Term × String)) := by
  unfold refutation
  split
  next n =>
    refine Leaves.bind (a := nextName "v") (fun d _ => ⟨rfl, rfl, rfl, rfl⟩) fun name => ?_
    exact Leaves.bind (leaves_request false (asserted_declareConstant name)) fun _ d _ => .refl d
  next => exact fun d _ => .refl d
  next => exact fun d _ => .refl d

theorem leaves_solve (o : Obligation) :
    Moves Leaves (solve o : Action (Discharger (Logged σ)) (Outcome × Option Violation)) := by
  refine Leaves.bind (leaves_ensure false) fun _ => ?_
  refine Leaves.bind (leaves_refutation o) fun goal => ?_
  intro d fresh
  obtain ⟨x, e, ensured, same, current⟩ := exists_ensure_matches fresh false
  rcases x with fault | l
  · rw [perform_bind_error ensured]
    exact same
  · have checked : (Solver.check false goal.1 : Action (Logged σ) Logic.Verdict).perform l = _ :=
      Logged.perform_pass (Solver.check false goal.1) l
    rw [perform_bind_ok ensured, checked]
    dsimp only
    rw [perform_modify_bind]
    have before : l.asserted = d.log := by
      rw [← same.log, log, current l rfl]
      rfl
    rcases ((Solver.check false goal.1).perform l.session).1 with fault | verdict
    · exact ⟨same.opening, same.facts, same.handles, before⟩
    · exact ⟨same.opening, same.facts, same.handles, before⟩

theorem leaves_discharge (cancelled : Bool) (o : Obligation) :
    Moves Leaves (discharge cancelled o :
      Action (Discharger (Logged σ)) (Outcome × Option Violation)) := by
  refine Leaves.bind (leaves_requireStated o) fun _ => ?_
  cases cancelled with
  | true => exact fun d _ => .refl d
  | false => exact leaves_solve o

theorem leaves_flushFrom (gaveUp : Nat → Bool) (i : Nat) (os : List Obligation)
    (d : Discharger (Logged σ)) : Leaves d ((flushFrom gaveUp i os).run d).2 := by
  induction os generalizing d i with
  | nil => exact fun _ => .refl d
  | cons o rest ih =>
      rw [run_flushFrom_cons]
      split
      next => exact fun _ => .refl d
      next =>
        have solved := leaves_solve o d
        split
        next failed =>
          rw [failed] at solved
          exact solved.trans fun _ => ⟨rfl, rfl, rfl, rfl⟩
        next e done =>
          rw [done] at solved
          have dropped : Leaves e { e with queue := rest } := fun _ => ⟨rfl, rfl, rfl, rfl⟩
          exact solved.trans (dropped.trans (ih (i + 1) _))

end Log

section Books

variable {σ α : Type} {d e : Discharger (Logged σ)} {fs : List (Formula Term)}

/-! ## What holds between requests -/

/-- The log has the facts in force of those pushed, with the names of facts in order.  The
discharger remembers their names and texts, and the facts are about its handles. -/
structure Booked (d : Discharger (Logged σ)) (fs : List (Formula Term)) : Prop where
  fresh : d.Fresh
  facts : d.facts = d.log.map fun a => (a.1, a.2.render)
  names : d.log.map Prod.fst = (List.range d.log.length).map factName
  asserted : d.log.map Prod.snd = inForce fs
  handles : ∀ name ∈ d.handles, isHandleName name = true
  terms : ∀ f ∈ fs, ∀ t ∈ f.leaves, t.isWellFormed = true
  speaks : ∀ f ∈ fs, ∀ name ∈ f.symbols, name ∈ d.handles

theorem Booked.matches (booked : Booked d fs) (same : Matches d e) : Booked e fs where
  fresh := same.fresh booked.fresh
  facts := by rw [same.facts, same.log, booked.facts]
  names := by rw [same.log, booked.names]
  asserted := by rw [same.log, booked.asserted]
  handles := same.handles ▸ booked.handles
  terms := booked.terms
  speaks := same.handles ▸ booked.speaks

theorem Booked.about (booked : Booked d fs) : ∀ f ∈ fs, AboutHandles f := fun f hf =>
  ⟨booked.terms f hf, fun name hn => booked.handles name (booked.speaks f hf name hn)⟩

/-- A further fact, asserted under the next name. -/
theorem Booked.extend (booked : Booked d fs) {f : Formula Term}
    (terms : ∀ t ∈ f.leaves, t.isWellFormed = true) (speaks : ∀ name ∈ f.symbols, name ∈ d.handles)
    (new : ¬(inForce fs).any (·.render == f.render) = true) (opening : e.opening = d.opening)
    (handles : e.handles = d.handles) (log : e.log = d.log ++ [(factName d.facts.length, f)])
    (facts : e.facts = d.facts ++ [(factName d.facts.length, f.render)]) :
    Booked e (fs ++ [f]) where
  fresh := by
    unfold Fresh
    rw [opening]
    exact booked.fresh
  facts := by
    rw [facts, log, List.map_append, booked.facts]
    rfl
  names := by
    have length : d.facts.length = d.log.length := by rw [booked.facts, List.length_map]
    rw [log, List.map_append, booked.names, length, List.length_append, List.length_singleton,
      List.range_succ, List.map_append]
    rfl
  asserted := by
    rw [log, List.map_append, booked.asserted, inForce_append, if_neg new]
    rfl
  handles := handles ▸ booked.handles
  terms := List.forall_mem_append.mpr ⟨booked.terms, List.forall_mem_singleton.mpr terms⟩
  speaks := by
    rw [handles]
    exact List.forall_mem_append.mpr ⟨booked.speaks, List.forall_mem_singleton.mpr speaks⟩

/-- A fact with the text of an earlier one. -/
theorem Booked.repeat (booked : Booked d fs) {f : Formula Term}
    (terms : ∀ t ∈ f.leaves, t.isWellFormed = true) (speaks : ∀ name ∈ f.symbols, name ∈ d.handles)
    (old : (inForce fs).any (·.render == f.render) = true) : Booked d (fs ++ [f]) :=
  { booked with
    asserted := by rw [inForce_append, if_pos old, booked.asserted]
    terms := List.forall_mem_append.mpr ⟨booked.terms, List.forall_mem_singleton.mpr terms⟩
    speaks := List.forall_mem_append.mpr ⟨booked.speaks, List.forall_mem_singleton.mpr speaks⟩ }

theorem Booked.leaves {a : Action (Discharger (Logged σ)) α} (booked : Booked d fs)
    (leaves : Moves Leaves a) : Booked (a.perform d).2 fs :=
  booked.matches (leaves d booked.fresh)

/-- A further handle. -/
theorem Booked.addHandle (booked : Booked d fs) {name : String}
    (proper : isHandleName name = true) : Booked { d with handles := d.handles ++ [name] } fs :=
  { booked with
    handles := List.forall_mem_append.mpr ⟨booked.handles, List.forall_mem_singleton.mpr proper⟩
    speaks := fun f hf symbol hs => List.mem_append_left _ (booked.speaks f hf symbol hs) }

variable [Solver σ]

/-- A push that is not refused books its fact. -/
theorem Booked.push (booked : Booked d fs) (cancelled : Bool) {f : Formula Term}
    (terms : ∀ t ∈ f.leaves, t.isWellFormed = true) :
    ∃ x e, (pushConstraint cancelled f).perform d = (x, e) ∧ e.handles = d.handles ∧
      Booked e (fs ++ unlessRefused (fun _ => [f]) x) := by
  have refused {e : Discharger (Logged σ)} (fault : Fault) (h : Booked e fs) :
      Booked e (fs ++ unlessRefused (fun _ : Unit => [f]) (.error fault)) := by
    rw [unlessRefused, List.append_nil]
    exact h
  unfold pushConstraint
  rw [perform_get_bind]
  dsimp only
  split
  next name _ => exact ⟨_, d, rfl, rfl, refused _ booked⟩
  next known =>
    have speaks : ∀ name ∈ f.symbols, name ∈ d.handles := fun name hname => by
      simpa using List.find?_eq_none.mp known name hname
    have texts : d.facts.any (·.2 == f.render) =
        (inForce fs).any (·.render == f.render) := by
      rw [booked.facts, ← booked.asserted, List.any_map, List.any_map]
      rfl
    rw [perform_get_bind, texts]
    split
    next old => exact ⟨_, d, rfl, rfl, booked.repeat terms speaks old⟩
    next new =>
      rw [perform_get_bind]
      obtain ⟨x, e, asserted, opening, facts, handles, ⟨rfl, log⟩ | ⟨⟨fault, rfl⟩, log⟩⟩ :=
        exists_assert booked.fresh cancelled (factName d.facts.length) f
      · rw [perform_bind_ok asserted, perform_modify]
        refine ⟨_, _, rfl, handles, booked.extend terms speaks new opening handles log ?_⟩
        dsimp only
        rw [facts]
      · rw [perform_bind_error asserted]
        exact ⟨_, e, rfl, handles, refused fault (booked.matches ⟨opening, facts, handles, log⟩)⟩

theorem isWellFormed_handleRange (name : String) :
    ∀ t ∈ (handleRange name).leaves, t.isWellFormed = true :=
  Formula.isWellFormed_leaves rfl

/-- A handle that is not refused books its range. -/
theorem Booked.freshSymbol (booked : Booked d fs) (cancelled : Bool) (text : String) :
    ∃ x e, (freshSymbol cancelled text).perform d = (x, e) ∧
      Booked e (fs ++ unlessRefused (fun name => [handleRange name]) x) := by
  have refused {e : Discharger (Logged σ)} (fault : Fault) (h : Booked e fs) :
      Booked e (fs ++ unlessRefused (fun name => [handleRange name]) (.error fault)) := by
    rw [unlessRefused, List.append_nil]
    exact h
  obtain ⟨x, c, ensured, same, -⟩ := exists_ensure_matches booked.fresh cancelled
  unfold Discharger.freshSymbol
  rcases x with fault | _
  · rw [perform_bind_error ensured]
    exact ⟨_, c, rfl, refused fault (booked.matches same)⟩
  · have numbered : Booked { c with nonce := c.nonce + 1 } fs :=
      (booked.matches same).matches ⟨rfl, rfl, rfl, rfl⟩
    have declare := numbered.leaves (leaves_request cancelled
      (asserted_declareConstant (symbolStem text ++ toString c.nonce)))
    rw [perform_bind_ok ensured, perform_bind_ok (perform_nextName text)]
    rcases declared : (request cancelled (Solver.declareConstant
      (symbolStem text ++ toString c.nonce))).perform { c with nonce := c.nonce + 1 }
      with ⟨fault | _, e⟩
    · rw [declared] at declare
      rw [perform_bind_error declared]
      exact ⟨_, e, rfl, refused fault declare⟩
    · rw [declared] at declare
      obtain ⟨x, e', pushed, -, after⟩ :=
        (declare.addHandle (isHandleName_symbolStem text c.nonce)).push cancelled
          (isWellFormed_handleRange (symbolStem text ++ toString c.nonce))
      rw [perform_bind_ok declared, perform_modify_bind]
      rcases x with fault | _
      · rw [perform_bind_error pushed]
        exact ⟨_, e', rfl, after⟩
      · rw [perform_bind_ok pushed, perform_pure]
        exact ⟨_, e', rfl, after⟩

theorem Booked.dimensions (booked : Booked d fs) (cancelled : Bool) (symbol : String)
    (place : Nat) (dims : List UInt64) :
    Booked ((pushDimensions cancelled symbol place dims).perform d).2
      (fs ++ acceptedDimensions cancelled symbol d place dims) := by
  induction dims generalizing d fs place with
  | nil =>
      rw [acceptedDimensions, List.append_nil]
      exact booked
  | cons dim dims ih =>
      obtain ⟨x, e, pushed, -, after⟩ := booked.push cancelled
        (f := Dialogue.dimensionFact symbol place dim) (Formula.isWellFormed_leaves rfl)
      have pushed' : (pushConstraint cancelled (Formula.compare .eq
          (dimensionOf (.symbol symbol) place) (.literal dim))).perform d = (x, e) := pushed
      rw [pushDimensions, acceptedDimensions, pushed]
      rcases x with fault | _
      · rw [perform_bind_error pushed']
        exact after
      · have rest := ih after (place + 1)
        rw [unlessRefused, List.append_assoc] at rest
        rw [perform_bind_ok pushed']
        exact rest

/-- One request books the facts it pushes. -/
theorem Booked.after (booked : Booked d fs) {q : Dialogue.Request}
    (terms : ∀ cancelled f, q = .push cancelled f → ∀ t ∈ f.leaves, t.isWellFormed = true) :
    Booked (d.after q) (fs ++ d.accepted q) := by
  have unchanged {e : Discharger (Logged σ)} (h : Booked e fs) : Booked e (fs ++ []) := by
    rwa [List.append_nil]
  cases q with
  | fresh cancelled text =>
      obtain ⟨x, e, given, after⟩ := booked.freshSymbol cancelled text
      rw [Discharger.after, accepted, given]
      exact after
  | push cancelled f =>
      obtain ⟨x, e, pushed, -, after⟩ := booked.push cancelled (terms cancelled f rfl)
      rw [Discharger.after, accepted, pushed]
      exact after
  | assertShape cancelled symbol dims =>
      rw [Discharger.after, accepted, assertShape, perform_get_bind]
      cases handle : d.handles.contains symbol with
      | true => exact booked.dimensions cancelled symbol 0 dims
      | false => exact unchanged booked
  | enqueue o => exact unchanged (booked.leaves (leaves_enqueue o))
  | flush gaveUp =>
      exact unchanged (booked.matches (leaves_flushFrom gaveUp 0 d.queue d booked.fresh))
  | discharge cancelled o => exact unchanged (booked.leaves (leaves_discharge cancelled o))

/-- A run books the facts it pushes. -/
theorem Booked.afterAll (booked : Booked d fs) {qs : List Dialogue.Request}
    (terms : ∀ cancelled f, .push cancelled f ∈ qs → ∀ t ∈ f.leaves, t.isWellFormed = true) :
    Booked (d.afterAll qs) (fs ++ d.acceptedAll qs) := by
  induction qs generalizing d fs with
  | nil =>
      rw [acceptedAll, List.append_nil]
      exact booked
  | cons q qs ih =>
      have first := booked.after (q := q) fun cancelled f same =>
        terms cancelled f (same ▸ List.mem_cons_self)
      rw [acceptedAll, ← List.append_assoc]
      exact ih first fun cancelled f mem => terms cancelled f (List.mem_cons_of_mem q mem)

end Books

/-! ## Facts in a session -/

section Facts

variable {σ : Type}

/-- A new discharger that logs the facts. -/
def logging (config : SolverConfig) (opening : Bool → Except Fault σ) (ledger : Ledger) :
    Discharger (Logged σ) :=
  { config, opening := fun cancelled => (opening cancelled).map ({ session := · }), ledger }

theorem booked_logging (config : SolverConfig) (opening : Bool → Except Fault σ)
    (ledger : Ledger) : Booked (logging config opening ledger) [] where
  fresh cancelled l h := by
    change (opening cancelled).map _ = _ at h
    cases found : opening cancelled with
    | error fault =>
        rw [found] at h
        cases h
    | ok s =>
        rw [found] at h
        cases h
        rfl
  facts := rfl
  names := rfl
  asserted := rfl
  handles _ h := absurd h List.not_mem_nil
  terms _ h := absurd h List.not_mem_nil
  speaks _ h := absurd h List.not_mem_nil

variable [Solver σ]

/-- The facts that requests to a new discharger assert in its session, under their names. -/
def asserted (config : SolverConfig) (opening : Bool → Except Fault σ) (ledger : Ledger)
    (qs : List Dialogue.Request) : List (String × Formula Term) :=
  ((logging config opening ledger).afterAll qs).log

/-- Formulas about handles with one text mean the same.  So the facts in a session are those whose
push was not refused, up to their meaning: each of these is asserted once, under a name of its own,
and nothing else is asserted. -/
theorem asserted_once :
    (∀ f g : Formula Term, AboutHandles f → AboutHandles g → f.render = g.render →
      ∀ i, f.holdsIn i = g.holdsIn i) ∧
    ∀ (config : SolverConfig) (opening : Bool → Except Fault σ) (ledger : Ledger)
      (qs : List Dialogue.Request),
      (∀ cancelled f, .push cancelled f ∈ qs → ∀ t ∈ f.leaves, t.isWellFormed = true) →
      let pushed := ({ config, opening, ledger } : Discharger σ).acceptedAll qs
      let facts := asserted config opening ledger qs
      (∀ f ∈ pushed, ∃ a ∈ facts, a.2.render = f.render ∧ ∀ i, a.2.holdsIn i = f.holdsIn i) ∧
      (∀ a ∈ facts, a.2 ∈ pushed) ∧
      facts.Pairwise (fun a b => a.1 ≠ b.1 ∧ a.2.render ≠ b.2.render) ∧
      facts.map Prod.fst = (List.range facts.length).map factName := by
  refine ⟨fun f g hf hg text i => hf.holdsIn_eq hg text i, ?_⟩
  intro config opening ledger qs terms pushed facts
  have booked : Booked ((logging config opening ledger).afterAll qs) pushed := by
    have run := (booked_logging config opening ledger).afterAll terms
    rwa [List.nil_append, ← acceptedAll_mapSession Logged.faithful, logging,
      mapSession_wrapped fun _ => rfl] at run
  have inForce : facts.map Prod.snd = inForce pushed := booked.asserted
  have names : facts.map Prod.fst = (List.range facts.length).map factName := booked.names
  refine ⟨fun f hf => ?_, fun a ha => ?_, .and ?_ ?_, names⟩
  · obtain ⟨g, hg, text⟩ := exists_mem_inForce hf
    obtain ⟨a, ha, rfl⟩ := List.mem_map.mp (inForce ▸ hg)
    have about := booked.about _ (mem_of_mem_inForce hg)
    exact ⟨a, ha, text, about.holdsIn_eq (booked.about f hf) text⟩
  · exact mem_of_mem_inForce (inForce ▸ List.mem_map_of_mem ha)
  · have distinct : (facts.map Prod.fst).Nodup := names ▸ List.nodup_range.map factName_injective
    exact List.pairwise_map.mp distinct
  · have distinct := pairwise_inForce pushed
    rw [← inForce, List.pairwise_map] at distinct
    exact distinct

end Facts

/-- The image has at least one row. -/
def someRow : Formula Term := .compare .ge (.symbol "img0") (.literal 1)

/-- Requests that push facts again, alone or in a junction by themselves, and one that is
refused. -/
def repeatedFacts : List Dialogue.Request :=
  [.fresh false "img", .push false someRow, .push false (.all [someRow]),
   .push false (.compare .ge (.symbol "mask") (.literal 1)), .assertShape false "img0" [3],
   .assertShape false "img0" [3, 4]]

theorem asserted_once_repeatedFacts :
    let config : SolverConfig := {}
    let pushed := ({ config, opening := openInProcess clauseLearning config, ledger := ⟨"", "", []⟩ } :
      Discharger BitBlaster).acceptedAll repeatedFacts
    let facts := asserted config (openInProcess clauseLearning config) ⟨"", "", []⟩ repeatedFacts
    (∀ i, someRow.holdsIn i = (Formula.all [someRow]).holdsIn i) ∧
      pushed.map Formula.render = ["(and (>= img0 0) (<= img0 4294967295))", "(>= img0 1)",
        "(>= img0 1)", "(= (tensor_dim img0 0) 3)", "(= (tensor_dim img0 0) 3)",
        "(= (tensor_dim img0 1) 4)"] ∧
      facts.map (fun a => (a.1, a.2.render)) =
        [("fact0", "(and (>= img0 0) (<= img0 4294967295))"), ("fact1", "(>= img0 1)"),
         ("fact2", "(= (tensor_dim img0 0) 3)"), ("fact3", "(= (tensor_dim img0 1) 4)")] ∧
      ∀ f ∈ pushed, ∃ a ∈ facts, a.2.render = f.render ∧ ∀ i, a.2.holdsIn i = f.holdsIn i := by
  intro config pushed facts
  have terms : ∀ cancelled f, .push cancelled f ∈ repeatedFacts →
      ∀ t ∈ f.leaves, t.isWellFormed = true := by
    intro cancelled f mem
    simp only [repeatedFacts, List.mem_cons, Dialogue.Request.push.injEq, reduceCtorEq,
      List.not_mem_nil, or_false, false_or] at mem
    rcases mem with ⟨-, rfl⟩ | ⟨-, rfl⟩ | ⟨-, rfl⟩ <;> exact Formula.isWellFormed_leaves rfl
  have about : AboutHandles someRow ∧ AboutHandles (.all [someRow]) :=
    ⟨⟨Formula.isWellFormed_leaves rfl, List.all_eq_true.mp rfl⟩,
      ⟨Formula.isWellFormed_leaves rfl, List.all_eq_true.mp rfl⟩⟩
  obtain ⟨means, run⟩ := asserted_once (σ := BitBlaster)
  obtain ⟨kept, -⟩ := run config (openInProcess clauseLearning config) ⟨"", "", []⟩ repeatedFacts terms
  exact ⟨means _ _ about.1 about.2 rfl, by decide +kernel, by decide +kernel, kept⟩

end Discharger

end ResourceSafety
