import ResourceSafety.Proofs.Logic.Shown

/-!
# Models of a session

Calls are requests to a session and the end of it.  A *survey* is an inquiry with a list of all that
its calls brought up: the symbols they declared, and the applications met in their formulas.  The
list does not look at the session's own, only at its signature.

As long as it is open, a session lists what was brought up, and nothing else (`Survey.Complete`).
So a model speaks of all of it.  Goals decided earlier and formulas refused half-way leave
applications behind that no fact is about, and their words may have variables that no clause
mentions.  Their values still come from tables of functions, the same as the values in the facts and
in the goal, since the congruences of all applications are clauses (`Survey.model_explained`).
-/

namespace ResourceSafety.Logic

/-! ## What is listed -/

namespace BitBlaster

open Logic.Action

variable {b c : BitBlaster} {met more : List Term}

/-- The terms are those that a session lists in its models. -/
structure Catalogues (b : BitBlaster) (met : List Term) : Prop where
  distinct : b.Distinct
  lists : ∀ t ∈ met, b.Lists t
  constants : ∀ c ∈ b.constants, Term.symbol c.1 ∈ met
  applications : ∀ a ∈ b.applications, ∃ t ∈ met, t.render = a.key

/-- What is met on translating is listed with the rest. -/
theorem Catalogues.meets {α : Type} {understood : Bool} {out : Except Fault α × BitBlaster}
    (h : b.Catalogues met) (meets : b.Meets understood more out) :
    out.2.Catalogues (met ++ more) where
  distinct c hc := by
    rw [meets.same.constants] at hc ⊢
    exact h.distinct c hc
  lists := List.forall_mem_append.mpr ⟨fun t ht => (h.lists t ht).grows meets.grows, meets.lists⟩
  constants c hc := List.mem_append_left more (h.constants c (meets.same.constants ▸ hc))
  applications a ha := by
    obtain old | ⟨t, ht, key⟩ := meets.only a ha
    · obtain ⟨t, ht, key⟩ := h.applications a old
      exact ⟨t, List.mem_append_left more ht, key⟩
    · exact ⟨t, List.mem_append_right met ht, key⟩

theorem Lists.congr {t : Term} (lists : b.Lists t) (constants : c.constants = b.constants)
    (applications : c.applications = b.applications) : c.Lists t := by
  cases t with
  | literal n => exact lists.elim
  | symbol name => exact lists.imp_right (.imp fun w word => by rwa [word?, constants])
  | apply f args => exact lists.imp_right (.imp fun w word => by rwa [word?, applications])

/-- Only the circuit and the facts have changed. -/
theorem Catalogues.congr (h : b.Catalogues met) (constants : c.constants = b.constants)
    (applications : c.applications = b.applications) : c.Catalogues met where
  distinct := by
    rw [Distinct, constants]
    exact h.distinct
  lists t ht := (h.lists t ht).congr constants applications
  constants := constants ▸ h.constants
  applications := applications ▸ h.applications

/-- A model of a session shows the values of one interpretation that makes the facts and the goal
true. -/
theorem Answered.model {goal : Formula Term} {l : Literal} {model : Model} {sat : SatSolver}
    {log : List Entry} (h : b.Answered goal l (.sat model) c) (faithful : b.Faithful sat log)
    (models : sat.ModelsHold) (catalogues : (c.guarded l).Catalogues met) :
    ∃ i : Interpretation, (∀ e ∈ log, e.2.reading.holdsIn i = true) ∧
      goal.reading.holdsIn i = true ∧
      (∀ t ∈ met, model.lookup t.render = some (toString (t.value i))) ∧
      ∀ e ∈ model, ∃ t ∈ met, t.render = e.1 := by
  have later := faithful.grows h.sound h.grows
  have sound := (h.sound.guards h.expresses.var).sound
  have verdict := h.verdict
  rcases answer : (c.guarded l).ask c.nextGuard with v | failed | _
  · rw [answer] at verdict
    obtain rfl : model = (c.guarded l).model v := Verdict.sat.inj verdict
    obtain ⟨i, admits, agrees, facts, goalHolds⟩ := later.asserts.exists_interpretation h.sound
      h.expresses (later.solver ▸ models) answer
    refine ⟨i, facts, goalHolds, fun t ht => ?_, fun e he => ?_⟩
    · have lists := catalogues.lists t ht
      obtain ⟨plain, w, word⟩ := lists.word
      rw [sound.lookup_model catalogues.distinct admits lists word,
        sound.value_eq (Circuit.admits_settled sound.circuit admits) agrees plain word]
    · obtain ⟨e', he', same⟩ := exists_of_mem_model he
      obtain he' | he' := List.mem_append.mp he'
      · exact ⟨_, catalogues.constants e' he', same⟩
      · obtain ⟨a, ha, rfl⟩ := List.mem_map.mp he'
        obtain ⟨t, ht, key⟩ := catalogues.applications a ha
        exact ⟨t, ht, key.trans same⟩
  · rw [answer] at verdict
    cases verdict
  · rw [answer] at verdict
    cases verdict

theorem lookup_withConstant {name : String} (new : b.constants.lookup name = none) :
    (b.withConstant name).constants.lookup name = some (Bits.after b.circuit.nextVar) := by
  show (b.constants ++ [_]).lookup name = _
  rw [List.lookup_append, new, List.lookup_cons, beq_self_eq_true]
  rfl

theorem Distinct.withConstant (distinct : b.Distinct) {name : String}
    (new : b.constants.lookup name = none) : (b.withConstant name).Distinct :=
  List.forall_mem_append.mpr
    ⟨fun c hc => lookup_mono (List.prefix_append _ _) (distinct c hc),
      List.forall_mem_singleton.mpr (lookup_withConstant new)⟩

/-- A session that has ended refuses what it needs to be open for. -/
theorem perform_closed {α : Type} (closed : b.closed = true) (k : Unit → Action BitBlaster α) :
    (requireOpen >>= k).perform b = (.error (.solverUnavailable "session closed" none), b) := by
  have refused :
      requireOpen.perform b = (.error (.solverUnavailable "session closed" none), b) := by
    unfold requireOpen
    rw [perform_bind_ok perform_get, closed]
    rfl
  exact perform_bind_error refused

end BitBlaster

/-- An inquiry whose session has ended does not change. -/
theorem Inquiry.step_closed {p : Inquiry} (closed : p.session.closed = true) (q : Inquiry.Request) :
    p.step q = p := by
  cases q with
  | constant name =>
      have refused : (BitBlaster.declareConstant name).perform p.session = _ :=
        BitBlaster.perform_closed closed _
      rw [Inquiry.step, refused]
  | function name arity =>
      have refused : (BitBlaster.declareFunction name arity).perform p.session = _ :=
        BitBlaster.perform_closed closed _
      rw [Inquiry.step, refused]
  | assert name fact =>
      have refused : (BitBlaster.assert name fact).perform p.session = _ :=
        BitBlaster.perform_closed closed _
      rw [Inquiry.step, refused]
  | check cancelled goal =>
      have refused : (BitBlaster.check cancelled goal).perform p.session = _ :=
        BitBlaster.perform_closed closed _
      rw [Inquiry.step, refused]

/-! ## Calls -/

/-- A call to a session. -/
inductive Call
  /-- A declaration, a fact or a goal. -/
  | request (q : Inquiry.Request)
  /-- The end of the session. -/
  | close

/-- An inquiry, and what its calls brought up. -/
structure Survey where
  /-- The inquiry. -/
  inquiry : Inquiry
  /-- The symbols and the applications, oldest first. -/
  met : List Term := []

namespace Survey

open Logic.Action Inquiry

/-- What a request brings up.  A cancelled goal is not read. -/
def bringsUp (g : Signature) : Request → List Term
  | .constant name => [.symbol name]
  | .function _ _ => []
  | .assert _ fact => fact.met g
  | .check cancelled goal => if cancelled then [] else goal.met g

/-- The survey after one more call.  A session that has ended refuses all requests. -/
def step (p : Survey) : Call → Survey
  | .request q =>
    let session := p.inquiry.session
    ⟨p.inquiry.step q, p.met ++ if session.closed then [] else bringsUp session.signature q⟩
  | .close =>
    { p with
      inquiry := { p.inquiry with session := (BitBlaster.close.perform p.inquiry.session).2 } }

/-- The survey of a new session, which asks a SAT solver and may have a time limit. -/
def run (sat : SatSolver) (timeout : UInt32) (cs : List Call) : Survey :=
  cs.foldl step { inquiry := { session := { sat, timeout } } }

variable {isFunction : String → Bool} {sat : SatSolver} {p : Survey} {s : BitBlaster}

/-- What holds between calls while the session is open. -/
structure Complete (isFunction : String → Bool) (sat : SatSolver) (p : Survey) : Prop where
  sound : p.inquiry.Sound isFunction sat
  catalogues : p.inquiry.session.Catalogues p.met

theorem Complete.start (sat : SatSolver) (timeout : UInt32) :
    Complete isFunction sat { inquiry := { session := { sat, timeout } } } where
  sound := .start sat timeout
  catalogues := ⟨List.forall_mem_nil _, List.forall_mem_nil _, List.forall_mem_nil _,
    List.forall_mem_nil _⟩

/-- What a formula brings up is listed, whether the formula is understood or refused. -/
theorem Complete.formula (h : Complete isFunction sat p) {f : Formula Term}
    (named : f.isNamed isFunction = true) :
    ((BitBlaster.formula f).perform p.inquiry.session).2.Catalogues
      (p.met ++ f.met p.inquiry.session.signature) := by
  obtain ⟨_, faithful, _⟩ := h.sound.faithful
  exact h.catalogues.meets (BitBlaster.meets_formula named faithful.sound h.sound.constants)

theorem Complete.constant (h : Complete isFunction sat p) {name : String}
    (proper : isName name = true) :
    (p.inquiry.step (.constant name)).session.Catalogues (p.met ++ [.symbol name]) := by
  obtain ⟨distinct, lists, constants, applications⟩ := h.catalogues
  obtain ⟨_, faithful, _⟩ := h.sound.faithful
  have before : ∀ a ∈ p.inquiry.session.applications, ∃ t ∈ p.met ++ [.symbol name],
      t.render = a.key :=
    fun a ha => (applications a ha).imp fun _ h => ⟨List.mem_append_left _ h.1, h.2⟩
  have listed {b : BitBlaster} (word : ∃ w, b.word? (.symbol name) = some w) :
      b.Lists (.symbol name) := ⟨.symbol proper, word⟩
  show ((BitBlaster.declareConstant name).perform p.inquiry.session).2.Catalogues _
  rw [BitBlaster.perform_declareConstant h.sound.opened]
  dsimp only
  split
  next declared =>
    refine ⟨distinct, List.forall_mem_append.mpr ⟨lists, List.forall_mem_singleton.mpr ?_⟩,
      fun c hc => List.mem_append_left _ (constants c hc), before⟩
    exact listed (Option.isSome_iff_exists.mp declared)
  next new =>
    have grows := BitBlaster.grows_withConstant faithful.sound name
    have none := Option.not_isSome_iff_eq_none.mp new
    refine ⟨distinct.withConstant none, List.forall_mem_append.mpr
      ⟨fun t ht => (lists t ht).grows grows, List.forall_mem_singleton.mpr ?_⟩,
      List.forall_mem_append.mpr ⟨fun c hc => List.mem_append_left _ (constants c hc), ?_⟩, before⟩
    · exact listed ⟨_, BitBlaster.lookup_withConstant none⟩
    · exact List.forall_mem_singleton.mpr (List.mem_append_right _ List.mem_cons_self)

/-- One request preserves what holds between calls. -/
theorem Complete.request (h : Complete isFunction sat p) {q : Request}
    (named : q.isNamed isFunction = true) : Complete isFunction sat (p.step (.request q)) := by
  refine ⟨h.sound.step named, ?_⟩
  have opened := h.sound.opened
  show (p.inquiry.step q).session.Catalogues (p.met ++ if p.inquiry.session.closed then [] else _)
  rw [opened, if_neg Bool.false_ne_true]
  cases q with
  | constant name =>
      simp only [Request.isNamed, Bool.and_eq_true] at named
      exact h.constant named.1
  | function name arity =>
      rw [bringsUp, List.append_nil]
      show ((BitBlaster.declareFunction name arity).perform p.inquiry.session).2.Catalogues _
      rw [BitBlaster.perform_declareFunction opened]
      split
      next => exact h.catalogues
      next => exact h.catalogues.congr rfl rfl
  | assert name fact =>
      have translated := h.formula (f := fact) named
      unfold Inquiry.step
      dsimp only
      rw [BitBlaster.perform_assert opened]
      rcases run : (BitBlaster.formula fact).perform p.inquiry.session with ⟨_ | l, s⟩
      · rw [run] at translated
        exact translated
      · rw [run] at translated
        refine translated.congr ?_ ?_
        all_goals
          dsimp only
          split <;> rfl
  | check cancelled goal =>
      show ((BitBlaster.check cancelled goal).perform p.inquiry.session).2.Catalogues _
      cases cancelled with
      | true =>
          rw [BitBlaster.perform_check_cancelled opened, bringsUp, if_pos rfl, List.append_nil]
          exact h.catalogues
      | false =>
          have translated := h.formula (f := goal) named
          rw [BitBlaster.perform_check opened, bringsUp, if_neg Bool.false_ne_true]
          rcases run : (BitBlaster.formula goal).perform p.inquiry.session with ⟨_ | l, s⟩
          · rw [run] at translated
            exact translated
          · rw [run] at translated
            exact translated.congr rfl rfl

/-- A run preserves it, until the session ends. -/
theorem complete_run (timeout : UInt32) {cs : List Call}
    (named : ∀ q, Call.request q ∈ cs → q.isNamed isFunction = true) :
    (run sat timeout cs).inquiry.session.closed = true ∨
      Complete isFunction sat (run sat timeout cs) := by
  induction cs using List.reverseRecOn with
  | nil => exact .inr (.start sat timeout)
  | append_singleton cs c ih =>
      unfold run
      rw [List.foldl_append]
      have before := ih fun q hq => named q (List.mem_append_left _ hq)
      cases c with
      | close => exact .inl rfl
      | request q =>
          obtain closed | complete := before
          · left
            show ((run sat timeout cs).inquiry.step q).session.closed = true
            rwa [step_closed closed]
          · exact .inr (complete.request (named q (List.mem_append_right _ List.mem_cons_self)))

/-! ## Models -/

/-- A model of a goal shows the values of one interpretation that makes the goal and the facts
true. -/
theorem Complete.model (h : Complete isFunction sat p) (models : sat.ModelsHold) {cancelled : Bool}
    {goal : Formula Term} {model : Model} (named : goal.isNamed isFunction = true)
    (answered :
      (BitBlaster.check cancelled goal).perform p.inquiry.session = (.ok (.sat model), s)) :
    let fs := p.inquiry.asserted ++ [goal]
    let listed := p.met ++ goal.met p.inquiry.session.signature
    ∃ i : Interpretation, (∀ f ∈ fs, f.holdsIn i = true) ∧
      (∀ t ∈ listed, model.lookup t.render = some (toString (t.value i))) ∧
      ∀ e ∈ model, ∃ t ∈ listed, t.render = e.1 := by
  intro fs listed
  obtain ⟨log, faithful, asserted⟩ := h.sound.faithful
  cases cancelled with
  | true =>
      rw [BitBlaster.perform_check_cancelled faithful.opened] at answered
      cases answered
  | false =>
      have after := (h.request (q := .check false goal) named).catalogues
      have catalogues : ((BitBlaster.check false goal).perform p.inquiry.session).2.Catalogues
        (p.met ++ if p.inquiry.session.closed then [] else _) := after
      obtain ⟨sound, _, same, answer⟩ :=
        BitBlaster.runs_check faithful.sound faithful.opened false goal
      rw [answered, faithful.opened, if_neg Bool.false_ne_true] at catalogues
      rw [answered] at sound same answer
      obtain ⟨l, c, posed, rfl⟩ := answer _ rfl
      have plain := sound.plain_of_understood
        (fun c hc => h.sound.constants c (same.constants ▸ hc)) named posed.known
      obtain ⟨i, facts, goalHolds, shown⟩ :=
        posed.model faithful models (catalogues.congr rfl rfl)
      rw [Formula.reading_of_plain plain] at goalHolds
      refine ⟨i, List.forall_mem_append.mpr ⟨?_, List.forall_mem_singleton.mpr goalHolds⟩, shown⟩
      intro f hf
      obtain ⟨e, he, rfl⟩ := List.mem_map.mp (asserted ▸ hf)
      rw [← Formula.reading_of_plain (h.sound.plain _ hf)]
      exact facts e he

/-- Models are explained by interpretations.  When a goal can hold, the model has a number for every
symbol that was declared and every application that was met, in facts and goals, those decided
before and those refused included, and for nothing else.  One interpretation makes the facts and the
goal true and has all the numbers in the model for its values. -/
theorem model_explained (isFunction : String → Bool) (sat : SatSolver) (timeout : UInt32)
    (models : sat.ModelsHold) (cs : List Call)
    (named : ∀ q, Call.request q ∈ cs → q.isNamed isFunction = true) (cancelled : Bool)
    (goal : Formula Term) (namedGoal : goal.isNamed isFunction = true) (model : Model)
    (answered : (BitBlaster.check cancelled goal).perform (run sat timeout cs).inquiry.session =
      (.ok (.sat model), s)) :
    let fs := (run sat timeout cs).inquiry.asserted ++ [goal]
    let listed :=
      (run sat timeout cs).met ++ goal.met (run sat timeout cs).inquiry.session.signature
    ∃ i : Interpretation, (∀ f ∈ fs, f.holdsIn i = true) ∧
      (∀ t ∈ listed, model.lookup t.render = some (toString (t.value i))) ∧
      ∀ e ∈ model, ∃ t ∈ listed, t.render = e.1 := by
  obtain closed | complete := complete_run timeout named
  · have refused : (BitBlaster.check cancelled goal).perform
        (run sat timeout cs).inquiry.session = _ := BitBlaster.perform_closed closed _
    rw [refused] at answered
    cases answered
  · exact complete.model models namedGoal answered

/-- Two symbols are equal.  A goal about a value of `f` is decided, and a fact is refused after
another was met in it. -/
def leftovers : List Call :=
  [.request (.constant "x"), .request (.constant "y"), .request (.function "f" 1),
   .request (.assert "same" symbolsEqual),
   .request (.check false (.compare .lt (.apply "f" [.symbol "y"]) (.literal 3))),
   .request (.assert "refused"
     (.compare .eq (.apply "f" [.apply "f" [.symbol "x"]]) (.symbol "z")))]

theorem named_leftovers : ∀ q, Call.request q ∈ leftovers → q.isNamed (· == "f") = true := by
  simp only [leftovers, List.mem_cons, Call.request.injEq, List.not_mem_nil, or_false]
  rintro q (rfl | rfl | rfl | rfl | rfl | rfl) <;> decide

theorem complete_leftovers : Complete (· == "f") clauseLearning (run clauseLearning 0 leftovers) :=
  (complete_run 0 named_leftovers).resolve_left (by decide +kernel)

/-- All that is asserted is that the symbols are equal. -/
theorem asserted_leftovers {i : Interpretation} :
    (∀ f ∈ (run clauseLearning 0 leftovers).inquiry.asserted, f.holdsIn i = true) ↔
      i.symbol "x" = i.symbol "y" := by
  have texts : (run clauseLearning 0 leftovers).inquiry.asserted.map Formula.render =
      [symbolsEqual.render] := by
    decide +kernel
  obtain ⟨fact, asserted, text⟩ := List.map_eq_singleton_iff.mp texts
  have plain := complete_leftovers.sound.plain fact (by simp [asserted])
  rw [asserted, List.forall_mem_singleton,
    Formula.holdsIn_of_render_eq plain plain_symbolsEqual text, ← UInt64.toNat_inj]
  exact beq_iff_eq

/-- The value at the second symbol was met in the goal. -/
theorem met_leftovers : .apply "f" [.symbol "y"] ∈ (run clauseLearning 0 leftovers).met := by
  have texts : "(f y)" ∈ (run clauseLearning 0 leftovers).met.map Term.render := by
    decide +kernel
  obtain ⟨t, ht, render⟩ := List.mem_map.mp texts
  have plain : (Term.apply "f" [.symbol "y"]).Plain :=
    .apply (isWord_of_isName (by decide)) (List.cons_ne_nil _ _)
      (List.forall_mem_singleton.mpr (.symbol (by decide)))
  have same := Term.render_injective (complete_leftovers.catalogues.lists t ht).word.1 plain render
  exact same ▸ ht

/-- The value of `f` at the first symbol. -/
def valueIsSeven : Formula Term := .compare .eq (.apply "f" [.symbol "x"]) (.literal 7)

/-- After `leftovers`, the value of `f` at the second symbol is in the model, though no fact is
about it, and is the same. -/
theorem model_explained_leftovers :
    ∃ model s, (BitBlaster.check false valueIsSeven).perform
        (run clauseLearning 0 leftovers).inquiry.session = (.ok (.sat model), s) ∧
      model.lookup "(f y)" = some "7" := by
  have answers : ((BitBlaster.check false valueIsSeven).perform
      (run clauseLearning 0 leftovers).inquiry.session).1.isOk = true := by
    decide +kernel
  rcases answer : (BitBlaster.check false valueIsSeven).perform
    (run clauseLearning 0 leftovers).inquiry.session with ⟨fault | v, s⟩
  · rw [answer] at answers
    cases answers
  have settles := complete_leftovers.sound.check_settles clauseLearning_decides (by decide) answer
  -- the fact and the goal hold where all symbols are zero and all values of `f` are seven
  have satisfiable : Satisfiable ((run clauseLearning 0 leftovers).inquiry.asserted ++
      [valueIsSeven]) :=
    ⟨⟨fun _ => 0, fun _ _ => 7⟩, List.forall_mem_append.mpr
      ⟨asserted_leftovers.mpr rfl, List.forall_mem_singleton.mpr (by decide)⟩⟩
  cases v with
  | unsat core => exact absurd satisfiable settles
  | unknown reason => exact settles.elim
  | sat model =>
      obtain ⟨i, holds, shown, _⟩ := model_explained (· == "f") clauseLearning 0
        clauseLearning_decides.models leftovers named_leftovers false valueIsSeven (by decide) model
        answer
      obtain ⟨facts, goal⟩ := List.forall_mem_append.mp holds
      have equal := asserted_leftovers.mp facts
      have seven : i.function "f" [i.symbol "x"] = 7 :=
        UInt64.toNat_inj.mp (beq_iff_eq.mp (goal valueIsSeven List.mem_cons_self))
      have value : (Term.apply "f" [.symbol "y"]).value i = 7 := by
        rw [Term.value, Term.valueList, Term.valueList, Term.value, ← equal, seven]
      have entry := shown _ (List.mem_append_left _ met_leftovers)
      rw [value] at entry
      exact ⟨model, s, rfl, entry⟩

end Survey

end ResourceSafety.Logic
