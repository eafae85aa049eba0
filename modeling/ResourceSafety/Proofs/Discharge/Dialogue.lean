import ResourceSafety.Discharge.Discharger
import ResourceSafety.Proofs.Discharge.Vocabulary

/-!
# Dialogues with a discharger

A *dialogue* is a run of requests to a discharger that decides in process.  Beside
the discharger it keeps the facts that were pushed without a fault, in order: those
of `pushConstraint`, the range of each fresh handle, and the dimensions of each
asserted shape.

Between requests the session of the discharger asserts exactly the pushed facts, each
text once, and every fact speaks of handles only (`Dialogue.Sound`).  Requests that
push nothing keep all of that (`Discharger.Kept`): the session may know more symbols
and applications afterwards, but what it asserts is the same.  One request preserves
it (`Dialogue.Sound.step`), and so does a run (`Dialogue.sound_run`).
-/

namespace ResourceSafety

open Logic (Action BitBlaster Formula NamedFact SatSolver Solver Term Verdict)

/-! ## Facts by their text -/

/-- The first of the formulas with each text. -/
def inForce (fs : List (Formula Term)) : List (Formula Term) :=
  fs.foldl (fun kept f => if kept.any (·.render == f.render) then kept else kept ++ [f]) []

theorem inForce_append (fs : List (Formula Term)) (f : Formula Term) :
    inForce (fs ++ [f]) =
      if (inForce fs).any (·.render == f.render) then inForce fs else inForce fs ++ [f] := by
  unfold inForce
  rw [List.foldl_append]
  rfl

theorem mem_of_mem_inForce {fs : List (Formula Term)} {f : Formula Term} (h : f ∈ inForce fs) :
    f ∈ fs := by
  induction fs using List.reverseRecOn with
  | nil => exact h
  | append_singleton fs g ih =>
      rw [inForce_append] at h
      split at h
      next => exact List.mem_append_left _ (ih h)
      next =>
        rcases List.mem_append.mp h with h | h
        · exact List.mem_append_left _ (ih h)
        · exact List.mem_append_right _ h

theorem exists_mem_inForce {fs : List (Formula Term)} {f : Formula Term} (h : f ∈ fs) :
    ∃ g ∈ inForce fs, g.render = f.render := by
  induction fs using List.reverseRecOn with
  | nil => cases h
  | append_singleton fs g ih =>
      rw [inForce_append]
      split
      next present =>
        rcases List.mem_append.mp h with h | h
        · exact ih h
        · cases List.mem_singleton.mp h
          obtain ⟨e, he, text⟩ := List.any_eq_true.mp present
          exact ⟨e, he, beq_iff_eq.mp text⟩
      next =>
        rcases List.mem_append.mp h with h | h
        · obtain ⟨e, he, text⟩ := ih h
          exact ⟨e, List.mem_append_left _ he, text⟩
        · cases List.mem_singleton.mp h
          exact ⟨f, List.mem_append_right _ List.mem_cons_self, rfl⟩

/-- The facts in force say what all the facts say. -/
theorem holds_inForce_iff {fs : List (Formula Term)} (plain : ∀ f ∈ fs, f.Plain)
    (i : Logic.Interpretation) :
    (∀ f ∈ inForce fs, f.holdsIn i = true) ↔ ∀ f ∈ fs, f.holdsIn i = true := by
  constructor
  · intro holds f hf
    obtain ⟨g, hg, text⟩ := exists_mem_inForce hf
    rw [← Formula.holdsIn_of_render_eq (plain g (mem_of_mem_inForce hg)) (plain f hf) text]
    exact holds g hg
  · exact fun holds f hf => holds f (mem_of_mem_inForce hf)

namespace Discharger

open Logic.Action
open Logic.BitBlaster (Entry Shaped)

/-! ## The session -/

/-- Opens sessions in process. -/
def openInProcess (sat : SatSolver) (config : SolverConfig) : Bool → Except Fault BitBlaster :=
  fun _ => .ok { sat, timeout := config.effectiveTimeout }

/-- The discharger opens sessions in process. -/
def InProcess (sat : SatSolver) (d : Discharger BitBlaster) : Prop :=
  d.opening = openInProcess sat d.config

/-- The session that the next request will find. -/
def current (sat : SatSolver) (d : Discharger BitBlaster) : BitBlaster :=
  d.session.getD
    { sat, timeout := d.config.effectiveTimeout, functions := [(shapeFunction, 2)] }

/-- A new session asserts nothing. -/
theorem shaped_start (sat : SatSolver) (timeout : UInt32) :
    Shaped { sat, timeout, functions := [(shapeFunction, 2)] } sat [] where
  faithful := (BitBlaster.Faithful.start sat timeout).declareFunction
    (by decide) (by decide)
  functions := rfl
  symbols := List.forall_mem_nil _

variable {d e : Discharger BitBlaster} {sat : SatSolver} {log : List Entry}

theorem perform_ensure (inProcess : d.InProcess sat) (cancelled : Bool) :
    (ensure cancelled).perform d =
      (.ok (d.current sat), { d with session := some (d.current sat) }) := by
  unfold ensure
  rw [perform_bind_ok perform_get]
  cases h : d.session with
  | some s =>
      have current : d.current sat = s := by rw [Discharger.current, h]; rfl
      have same : { d with session := some s } = d := by
        cases d
        cases h
        rfl
      rw [current, same]
      rfl
  | none =>
      have opened : d.opening cancelled =
          .ok { sat, timeout := d.config.effectiveTimeout } := by
        rw [inProcess]
        rfl
      have current : d.current sat =
          { sat, timeout := d.config.effectiveTimeout, functions := [(shapeFunction, 2)] } := by
        rw [Discharger.current, h]
        rfl
      rw [current]
      exact (perform_answer_bind opened).trans rfl

theorem perform_request {α : Type} (inProcess : d.InProcess sat) (cancelled : Bool)
    (a : Action BitBlaster α) :
    (request cancelled a).perform d = ((a.perform (d.current sat)).1,
      { d with session := some (a.perform (d.current sat)).2 }) := by
  unfold request
  rw [perform_bind_ok (perform_ensure inProcess cancelled)]
  rcases a.perform (d.current sat) with ⟨r, s⟩
  rw [perform_bind_ok (perform_modify _), perform_ofExcept]

/-! ## Names -/

theorem isAlpha_of_isLetter {c : Char} (h : isLetter c = true) : c.isAlpha = true := by
  simp only [isLetter, Bool.or_eq_true, Bool.and_eq_true, decide_eq_true_eq] at h
  exact Logic.isAlpha_iff.mpr h.symm

theorem isAlphanum_of_isSymbolChar {c : Char} (h : isSymbolChar c = true) :
    (c.isAlphanum || c == '_') = true := by
  simp only [isSymbolChar, Bool.or_eq_true] at h
  rcases h with (h | h) | h
  · simp [h]
  · simp [Char.isAlphanum, isAlpha_of_isLetter h]
  · have digit : c.isDigit = true := by
      simp only [Bool.and_eq_true, decide_eq_true_eq] at h
      simp only [Char.isDigit, Bool.and_eq_true, decide_eq_true_eq]
      exact h
    simp [Char.isAlphanum, digit]

theorem symbolStem_letters (text : String) :
    ∃ c cs, (symbolStem text).toList = c :: cs ∧ c.isAlpha = true ∧
      ∀ b ∈ cs, (b.isAlphanum || b == '_') = true := by
  have chars : ∀ c ∈ text.toList.map fun c => if isSymbolChar c then c else '_',
      (c.isAlphanum || c == '_') = true := by
    intro c hc
    obtain ⟨b, _, rfl⟩ := List.mem_map.mp hc
    split
    next good => exact isAlphanum_of_isSymbolChar good
    next => rfl
  unfold symbolStem
  dsimp only
  split
  next c cs eq =>
    rw [eq] at chars ⊢
    split
    next letter =>
      exact ⟨c, cs, String.toList_ofList, isAlpha_of_isLetter letter,
        fun b hb => chars b (List.mem_cons_of_mem c hb)⟩
    next => exact ⟨'h', c :: cs, String.toList_ofList, rfl, chars⟩
  next => exact ⟨'h', [], rfl, rfl, fun b hb => nomatch hb⟩

/-- A stem with a number behind it is a name. -/
theorem isName_symbolStem (text : String) (n : Nat) :
    Logic.isName (symbolStem text ++ toString n) = true := by
  obtain ⟨c, cs, stem, letter, rest⟩ := symbolStem_letters text
  have digits : ∀ b ∈ (toString n).toList, (b.isAlphanum || b == '_') = true := by
    intro b hb
    have digit := Text.isDigit_of_mem_digits (Nat.toList_repr ▸ hb)
    simp [Char.isAlphanum, digit]
  unfold Logic.isName
  rw [String.toList_append, stem, List.cons_append]
  simp only [letter, Bool.true_and, List.all_append, Bool.and_eq_true, List.all_eq_true]
  exact ⟨rest, digits⟩

/-- A name that ends in a number is not that of the dimensions. -/
theorem isShapeFunction_symbolStem (text : String) (n : Nat) :
    Logic.isShapeFunction (symbolStem text ++ toString n) = false := by
  refine beq_eq_false_iff_ne.mpr fun same => ?_
  obtain ⟨c, hc⟩ := List.exists_mem_of_ne_nil (Nat.toDigits 10 n) Nat.toDigits_ne_nil
  have mem : c ∈ shapeFunction.toList := by
    rw [← same, String.toList_append]
    exact List.mem_append_right _ (Nat.toList_repr ▸ hc)
  have letters : shapeFunction.toList.all (!·.isDigit) = true := by decide
  have letter := List.all_eq_true.mp letters c mem
  rw [Text.isDigit_of_mem_digits hc] at letter
  cases letter

/-! ## Requests that push nothing -/

/-- The discharger decides in process, in a session that asserts the log. -/
structure Ready (sat : SatSolver) (log : List Entry) (d : Discharger BitBlaster) : Prop where
  inProcess : d.InProcess sat
  shaped : (d.current sat).Shaped sat log

/-- The state differs from an earlier one in nothing that a dialogue relies on: the
handles and facts are the same, and the session has at most met further symbols and
applications. -/
structure Kept (sat : SatSolver) (d e : Discharger BitBlaster) : Prop where
  config : e.config = d.config
  opening : e.opening = d.opening
  handles : e.handles = d.handles
  facts : e.facts = d.facts
  shaped : ∀ log, (d.current sat).Shaped sat log → (e.current sat).Shaped sat log
  declared : ∀ name ∈ (d.current sat).signature.constants,
    name ∈ (e.current sat).signature.constants

theorem Kept.trans {f : Discharger BitBlaster} (first : Kept sat d e) (second : Kept sat e f) :
    Kept sat d f where
  config := second.config.trans first.config
  opening := second.opening.trans first.opening
  handles := second.handles.trans first.handles
  facts := second.facts.trans first.facts
  shaped log h := second.shaped log (first.shaped log h)
  declared name h := second.declared name (first.declared name h)

/-- Nothing but the rest of the state has changed. -/
theorem Kept.of_eq (config : e.config = d.config) (opening : e.opening = d.opening)
    (handles : e.handles = d.handles) (facts : e.facts = d.facts)
    (session : e.current sat = d.current sat) : Kept sat d e :=
  ⟨config, opening, handles, facts, fun _ h => session ▸ h, fun _ h => session ▸ h⟩

theorem Kept.refl (d : Discharger BitBlaster) : Kept sat d d := .of_eq rfl rfl rfl rfl rfl

/-- The session has met further applications. -/
theorem Kept.of_grows {s : BitBlaster} (sound : s.Sound) (grows : (d.current sat).Grows s)
    (same : (d.current sat).SameNames s) : Kept sat d { d with session := some s } where
  config := rfl
  opening := rfl
  handles := rfl
  facts := rfl
  shaped _ h := h.same (h.faithful.grows sound grows) same
  declared _ h := same.signature ▸ h

theorem Ready.kept (ready : Ready sat log d) (kept : Kept sat d e) : Ready sat log e where
  inProcess := by
    unfold InProcess
    rw [kept.opening, kept.config]
    exact ready.inProcess
  shaped := kept.shaped log ready.shaped

theorem kept_ensure (sat : SatSolver) (d : Discharger BitBlaster) :
    Kept sat d { d with session := some (d.current sat) } :=
  .of_eq rfl rfl rfl rfl rfl

theorem perform_nextName {σ : Type} {d : Discharger σ} (text : String) :
    (nextName text).perform d =
      (.ok (symbolStem text ++ toString d.nonce), { d with nonce := d.nonce + 1 }) := rfl

/-- The next name can always be declared. -/
theorem exists_declareConstant (ready : Ready sat log d) (cancelled : Bool) {name : String}
    (proper : Logic.isName name = true) (other : Logic.isShapeFunction name = false) :
    ∃ e, (request cancelled (Solver.declareConstant name)).perform d = (.ok (), e) ∧
      Kept sat d e ∧ name ∈ (e.current sat).signature.constants ∧ e.nonce = d.nonce := by
  have opened := ready.shaped.faithful.opened
  have performed := perform_request ready.inProcess cancelled (Solver.declareConstant name)
  have answered : ((Solver.declareConstant name : Action BitBlaster Unit).perform
      (d.current sat)).1 = .ok () :=
    congrArg Prod.fst (BitBlaster.perform_declareConstant opened name)
  rw [answered] at performed
  refine ⟨_, performed, ⟨rfl, rfl, rfl, rfl, fun _ h => h.declareConstant proper other, ?_⟩, ?_, rfl⟩
  · exact fun _ h => BitBlaster.mem_constants_declareConstant opened (.inr h)
  · exact BitBlaster.mem_constants_declareConstant opened (.inl rfl)

/-- Asking about a goal leaves everything a dialogue relies on. -/
theorem kept_check (ready : Ready sat log d) (goal : Formula Term) :
    Kept sat d
      { d with session := some ((BitBlaster.check false goal).perform (d.current sat)).2 } := by
  obtain ⟨sound, grows, same, _⟩ := BitBlaster.runs_check ready.shaped.faithful.sound
    ready.shaped.faithful.opened false goal
  exact .of_grows sound grows same

theorem kept_refutation (ready : Ready sat log d) (o : Obligation) :
    Kept sat d ((refutation o).perform d).2 := by
  unfold refutation
  cases o.subject with
  | literal n =>
      have kept : Kept sat d { d with nonce := d.nonce + 1 } := .of_eq rfl rfl rfl rfl rfl
      obtain ⟨e, declared, kept', _⟩ := exists_declareConstant (ready.kept kept) false
        (isName_symbolStem "v" d.nonce) (isShapeFunction_symbolStem "v" d.nonce)
      dsimp only
      rw [perform_bind_ok (perform_nextName "v"), perform_bind_ok declared]
      exact kept.trans kept'
  | handle symbol => exact .refl d
  | expression text => exact .refl d
  | missing => exact .refl d

/-- The state after the session `s` has decided a goal. -/
def asked (d : Discharger BitBlaster) (s : BitBlaster) : Discharger BitBlaster :=
  { d with session := some s, observed := d.observed ++ [.decision d.config.profile] }

/-- What `solve` does, once the goal is there. -/
theorem perform_solve (ready : Ready sat log d) {o : Obligation} {goal : Formula Term}
    {binding : String}
    (h : (refutation o).perform { d with session := some (d.current sat) } =
      (.ok (goal, binding), e)) :
    (solve o).perform d =
      match (BitBlaster.check false goal).perform (e.current sat) with
      | (.error fault, s) => (.error (.within ("discharge " ++ o.render) fault), e.asked s)
      | (.ok v, s) =>
        (.ok (conclude o binding v), record o goal (conclude o binding v).1 v (e.asked s)) := by
  have kept := (kept_ensure sat d).trans (kept_refutation (ready.kept (kept_ensure sat d)) o)
  rw [h] at kept
  unfold solve
  rw [perform_bind_ok (perform_ensure ready.inProcess false), perform_bind_ok h]
  dsimp only
  rw [perform_bind_ok (perform_ensure (ready.kept kept).inProcess false)]
  have same : (Solver.check false goal : Action BitBlaster Verdict) = BitBlaster.check false goal :=
    rfl
  rw [same]
  rcases (BitBlaster.check false goal).perform (e.current sat) with ⟨r, s⟩
  cases r <;> rfl

/-- Deciding an obligation leaves everything a dialogue relies on. -/
theorem kept_solve (ready : Ready sat log d) (o : Obligation) :
    Kept sat d ((solve o).perform d).2 := by
  have kept := (kept_ensure sat d).trans (kept_refutation (ready.kept (kept_ensure sat d)) o)
  rcases h : (refutation o).perform { d with session := some (d.current sat) } with
    ⟨_ | ⟨goal, b⟩, e⟩
  · unfold solve
    rw [perform_bind_ok (perform_ensure ready.inProcess false), perform_bind_error h]
    rw [h] at kept
    exact kept
  · rw [perform_solve ready h]
    rw [h] at kept
    refine kept.trans ((kept_check (ready.kept kept) goal).trans ?_)
    rcases (BitBlaster.check false goal).perform (e.current sat) with ⟨_ | v, s⟩
    · exact .of_eq rfl rfl rfl rfl rfl
    · exact .of_eq rfl rfl rfl rfl rfl

theorem perform_requireStated {σ : Type} {d : Discharger σ} (o : Obligation) :
    (requireStated o).perform d =
      match d.refusal? o with
      | some fault => (.error fault, d)
      | none => (.ok (), d) := by
  unfold requireStated
  rw [perform_bind_ok perform_get]
  cases d.refusal? o <;> rfl

theorem kept_discharge (ready : Ready sat log d) (cancelled : Bool) (o : Obligation) :
    Kept sat d ((discharge cancelled o).perform d).2 := by
  unfold discharge
  rw [perform_bind, perform_requireStated]
  cases d.refusal? o with
  | some fault => exact .refl d
  | none =>
      cases cancelled with
      | true => exact .refl d
      | false => exact kept_solve ready o

theorem kept_enqueue (o : Obligation) : Kept sat d ((enqueue o).perform d).2 := by
  unfold enqueue
  rw [perform_bind, perform_requireStated]
  cases d.refusal? o with
  | some fault => exact .refl d
  | none => exact .of_eq rfl rfl rfl rfl rfl

/-- What deciding the first of the queued obligations comes to. -/
theorem run_flushFrom {σ : Type} [Solver σ] (gaveUp : Nat → Bool) (i : Nat) (o : Obligation)
    (rest : List Obligation) (d : Discharger σ) :
    (flushFrom gaveUp i (o :: rest)).run d =
      if gaveUp i then (([], some .cancelled), d)
      else
        match (solve o).perform d with
        | (.error fault, e) => (([], some fault), { e with queue := rest })
        | (.ok (_, v), e) =>
          let r := (flushFrom gaveUp (i + 1) rest).run { e with queue := rest }
          ((v.toList ++ r.1.1, r.1.2), r.2) := by
  rw [flushFrom]
  cases gaveUp i with
  | true => rfl
  | false =>
      simp only [Bool.false_eq_true, if_false, StateT.run_bind]
      have same : StateT.run (ExceptT.run (solve o)) d = (solve o).perform d := rfl
      rw [same]
      rcases (solve o).perform d with ⟨_ | ⟨_, v⟩, e⟩
      · rfl
      · rfl

theorem run_flushFrom_cons {σ : Type} [Solver σ] {d : Discharger σ} (gaveUp : Nat → Bool) (i : Nat)
    (o : Obligation) (rest : List Obligation) :
    ((flushFrom gaveUp i (o :: rest)).run d).2 =
      if gaveUp i then d
      else
        match (solve o).perform d with
        | (.error _, e) => { e with queue := rest }
        | (.ok _, e) => ((flushFrom gaveUp (i + 1) rest).run { e with queue := rest }).2 := by
  rw [run_flushFrom]
  split
  next => rfl
  next =>
    rcases (solve o).perform d with ⟨_ | ⟨_, v⟩, e⟩
    · rfl
    · rfl

theorem kept_flushFrom (ready : Ready sat log d) (gaveUp : Nat → Bool) (i : Nat)
    (os : List Obligation) : Kept sat d ((flushFrom gaveUp i os).run d).2 := by
  induction os generalizing d i with
  | nil => exact .refl d
  | cons o rest ih =>
      rw [run_flushFrom_cons]
      split
      next => exact .refl d
      next =>
        have kept := kept_solve ready o
        split
        next failed =>
          rw [failed] at kept
          exact kept.trans (.of_eq rfl rfl rfl rfl rfl)
        next e solved =>
          rw [solved] at kept
          have kept' : Kept sat d { e with queue := rest } :=
            kept.trans (.of_eq rfl rfl rfl rfl rfl)
          exact kept'.trans (ih (ready.kept kept') (i + 1))

theorem kept_flush (ready : Ready sat log d) (gaveUp : Nat → Bool) :
    Kept sat d ((flush gaveUp).run d).2 :=
  kept_flushFrom ready gaveUp 0 d.queue

/-! ## Requests that push facts -/

/-- A fact speaks of handles only. -/
def SpeaksOf (d : Discharger BitBlaster) (f : Formula Term) : Prop :=
  ∀ name ∈ f.symbols, name ∈ d.handles

/-- The discharger with one more fact, in a session that has accepted it. -/
def withFact (d : Discharger BitBlaster) (s : BitBlaster) (f : Formula Term) :
    Discharger BitBlaster :=
  { d with session := some s, facts := d.facts ++ [(factName d.facts.length, f.render)] }

/-- What pushing a fact comes to. -/
theorem perform_pushConstraint (inProcess : d.InProcess sat) (cancelled : Bool)
    (f : Formula Term) :
    (pushConstraint cancelled f).perform d =
      match f.symbols.find? (!d.handles.contains ·) with
      | some name => (.error (.unknownSymbol name), d)
      | none =>
        if d.facts.any (·.2 == f.render) then (.ok (), d)
        else
          match (BitBlaster.assert (factName d.facts.length) f).perform (d.current sat) with
          | (.error fault, s) => (.error fault, { d with session := some s })
          | (.ok (), s) => (.ok (), d.withFact s f) := by
  have asserted := perform_request inProcess cancelled
    (Solver.assert (factName d.facts.length) f)
  have same : (Solver.assert (factName d.facts.length) f : Action BitBlaster Unit) =
    BitBlaster.assert (factName d.facts.length) f := rfl
  unfold pushConstraint
  rw [perform_bind_ok perform_get]
  dsimp only
  cases f.symbols.find? (!d.handles.contains ·) with
  | some name => rfl
  | none =>
      dsimp only
      rw [perform_bind_ok perform_get]
      cases known : d.facts.any (·.2 == f.render) with
      | true => rfl
      | false =>
          simp only [Bool.false_eq_true, if_false]
          rw [perform_bind_ok perform_get]
          rw [same] at asserted
          rcases h : (BitBlaster.assert (factName d.facts.length) f).perform (d.current sat) with
            ⟨_ | _, s⟩
          · rw [h] at asserted
            exact perform_bind_error asserted
          · rw [h] at asserted
            exact perform_bind_ok asserted

/-- A fact that was pushed without a fault was known by its text, or is a further fact. -/
theorem pushConstraint_ok (inProcess : d.InProcess sat) {cancelled : Bool} {f : Formula Term}
    (h : (pushConstraint cancelled f).perform d = (.ok (), e)) :
    SpeaksOf d f ∧ (d.facts.any (·.2 == f.render) = true ∧ e = d ∨
      d.facts.any (·.2 == f.render) = false ∧ ∃ s,
        (BitBlaster.assert (factName d.facts.length) f).perform (d.current sat) = (.ok (), s) ∧
          e = d.withFact s f) := by
  rw [perform_pushConstraint inProcess] at h
  split at h
  next => cases h
  next known =>
    have speaks : SpeaksOf d f := fun name hname => by
      simpa using List.find?_eq_none.mp known name hname
    refine ⟨speaks, ?_⟩
    split at h
    next old =>
      cases h
      exact .inl ⟨old, rfl⟩
    next new =>
      split at h
      next => cases h
      next s asserted =>
        cases h
        exact .inr ⟨Bool.eq_false_iff.mpr new, s, asserted, rfl⟩

theorem factName_ne_empty (n : Nat) : factName n ≠ "" := by
  intro empty
  have chars := congrArg String.toList empty
  change ("fact" ++ toString n).toList = _ at chars
  rw [String.toList_append] at chars
  cases chars

/-- A further fact joins the log under its name. -/
theorem Ready.withFact (ready : Ready sat log d) {s : BitBlaster} {f : Formula Term}
    (asserted : (BitBlaster.assert (factName d.facts.length) f).perform (d.current sat) =
      (.ok (), s)) :
    (d.current sat).SameNames s ∧ (∀ t ∈ f.leaves, t.reading.Plain ∧
        ∃ w, s.word? t.reading = some w) ∧
      ∃ fact : NamedFact, fact.name = factName d.facts.length ∧
        Ready sat (log ++ [(some fact, f)]) (d.withFact s f) := by
  have outcome := ready.shaped.faithful.asserted (factName d.facts.length) f
  rw [asserted] at outcome
  cases outcome with
  | @accepted fact _ named faithful same known =>
      rw [if_neg (factName_ne_empty _)] at named
      obtain ⟨fact, rfl, name⟩ := Option.map_eq_some_iff.mp named
      exact ⟨same, known, fact, name, ready.inProcess, ready.shaped.same faithful same⟩

/-- A push that was refused changes nothing a dialogue relies on. -/
theorem kept_push_refused (ready : Ready sat log d) {cancelled : Bool} {f : Formula Term}
    {fault : Fault} (h : (pushConstraint cancelled f).perform d = (.error fault, e)) :
    Kept sat d e := by
  rw [perform_pushConstraint ready.inProcess] at h
  split at h
  next =>
    cases h
    exact .refl d
  next =>
    split at h
    next => cases h
    next =>
      split at h
      next s asserted =>
        cases h
        have refused {log : List Entry} (shaped : (d.current sat).Shaped sat log) :
            s.Faithful sat log ∧ (d.current sat).SameNames s := by
          have outcome := shaped.faithful.asserted (factName d.facts.length) f
          rw [asserted] at outcome
          cases outcome with
          | refused faithful same => exact ⟨faithful, same⟩
        exact ⟨rfl, rfl, rfl, rfl,
          fun _ shaped => shaped.same (refused shaped).1 (refused shaped).2,
          fun _ h => (refused ready.shaped).2.signature ▸ h⟩
      next => cases h

/-- A well-formed fact about handles that are declared can always be pushed. -/
theorem Ready.exists_push (ready : Ready sat log d) {f : Formula Term} (cancelled : Bool)
    (wellFormed : f.isWellFormed = true) (speaks : SpeaksOf d f)
    (declared : ∀ name ∈ f.symbols, name ∈ (d.current sat).signature.constants) :
    ∃ e, (pushConstraint cancelled f).perform d = (.ok (), e) ∧ e.nonce = d.nonce := by
  obtain ⟨l, s, translated⟩ := ready.shaped.exists_formula wellFormed declared
  have known : f.symbols.find? (!d.handles.contains ·) = none := by
    refine List.find?_eq_none.mpr fun name hname => ?_
    simpa using speaks name hname
  rw [perform_pushConstraint ready.inProcess, known,
    BitBlaster.perform_assert ready.shaped.faithful.opened, translated]
  dsimp only
  split
  next => exact ⟨_, rfl, rfl⟩
  next => exact ⟨_, rfl, rfl⟩

theorem symbols_handleRange (name : String) : (handleRange name).symbols = [name] := by
  simp [handleRange, Formula.symbols, Formula.leaves, Formula.leavesList, Term.symbols,
    List.eraseDups_cons]

/-- A further handle. -/
theorem Ready.addHandle (ready : Ready sat log d) (name : String) :
    Ready sat log { d with handles := d.handles ++ [name] } :=
  ⟨ready.inProcess, ready.shaped⟩

/-- A fresh handle is declared, and then its range is pushed. -/
theorem Ready.exists_fresh (ready : Ready sat log d) (cancelled : Bool) (text : String) :
    let name := symbolStem text ++ toString d.nonce
    ∃ c e, Kept sat d c ∧ name ∈ (c.current sat).signature.constants ∧
      (pushConstraint cancelled (handleRange name)).perform
        { c with handles := c.handles ++ [name] } = (.ok (), e) ∧
      (freshSymbol cancelled text).perform d = (.ok name, e) ∧ e.nonce = d.nonce + 1 := by
  intro name
  have kept : Kept sat d { d with session := some (d.current sat), nonce := d.nonce + 1 } :=
    .of_eq rfl rfl rfl rfl rfl
  obtain ⟨c, declare, kept₁, declared, nonce₁⟩ := exists_declareConstant
    (ready.kept kept) cancelled (isName_symbolStem text d.nonce)
    (isShapeFunction_symbolStem text d.nonce)
  have ready₁ := (ready.kept (kept.trans kept₁)).addHandle name
  have only {P : String → Prop} (h : P name) : ∀ s ∈ (handleRange name).symbols, P s := by
    rw [symbols_handleRange]
    exact List.forall_mem_singleton.mpr h
  obtain ⟨e, push, nonce₂⟩ := ready₁.exists_push cancelled (f := handleRange name) rfl
    (only (List.mem_append_right _ List.mem_cons_self)) (only declared)
  refine ⟨c, e, kept.trans kept₁, declared, push, ?_, nonce₂.trans nonce₁⟩
  unfold freshSymbol
  rw [perform_bind_ok (perform_ensure ready.inProcess cancelled),
    perform_bind_ok (perform_nextName text), perform_bind_ok declare,
    perform_bind_ok (perform_modify _)]
  exact (perform_bind_ok push).trans rfl

end Discharger

/-! ## Dialogues -/

/-- A discharger and the facts that were pushed without a fault, oldest first. -/
structure Dialogue where
  /-- The discharger. -/
  discharger : Discharger BitBlaster
  /-- The facts. -/
  pushed : List (Formula Term) := []

namespace Dialogue

open Logic.Action
open Discharger (Kept Ready SpeaksOf)
open Logic.BitBlaster (Entry)

variable {sat : SatSolver} {d e : Discharger BitBlaster} {fs : List (Formula Term)}

/-- What holds between requests. -/
structure Sound (sat : SatSolver) (p : Dialogue) : Prop where
  ready : ∃ log, Ready sat log p.discharger ∧ log.map Prod.snd = inForce p.pushed
  declared : ∀ h ∈ p.discharger.handles, h ∈ (p.discharger.current sat).signature.constants
  texts : p.discharger.facts.map Prod.snd = (inForce p.pushed).map Formula.render
  speaks : ∀ f ∈ p.pushed, SpeaksOf p.discharger f

theorem Sound.kept (sound : Sound sat ⟨d, fs⟩) (kept : Kept sat d e) : Sound sat ⟨e, fs⟩ where
  ready := sound.ready.imp fun _ h => ⟨h.1.kept kept, h.2⟩
  declared h hh := kept.declared h (sound.declared h (kept.handles ▸ hh))
  texts := (congrArg (List.map Prod.snd) kept.facts).trans sound.texts
  speaks f hf name hname := by
    show name ∈ e.handles
    rw [kept.handles]
    exact sound.speaks f hf name hname

/-- A fact that was pushed without a fault is one of the facts. -/
theorem Sound.push {cancelled : Bool} {f : Formula Term} (sound : Sound sat ⟨d, fs⟩)
    (h : (Discharger.pushConstraint cancelled f).perform d = (.ok (), e)) :
    Sound sat ⟨e, fs ++ [f]⟩ ∧ e.handles = d.handles := by
  obtain ⟨log, ready, formulas⟩ := sound.ready
  have spoken (speaks : SpeaksOf d f) : ∀ g ∈ fs ++ [f], SpeaksOf d g :=
    List.forall_mem_append.mpr ⟨sound.speaks, List.forall_mem_singleton.mpr speaks⟩
  have present : d.facts.any (·.2 == f.render) = (inForce fs).any (·.render == f.render) := by
    have texts := congrArg (List.any · (· == f.render)) sound.texts
    simp only [List.any_map] at texts
    exact texts
  obtain ⟨speaks, ⟨old, rfl⟩ | ⟨new, s, asserted, rfl⟩⟩ :=
    Discharger.pushConstraint_ok ready.inProcess h
  · rw [present] at old
    have same : inForce (fs ++ [f]) = inForce fs := by rw [inForce_append, if_pos old]
    exact ⟨⟨⟨log, ready, same ▸ formulas⟩, sound.declared, same ▸ sound.texts, spoken speaks⟩, rfl⟩
  · rw [present] at new
    have more : inForce (fs ++ [f]) = inForce fs ++ [f] := by
      rw [inForce_append, if_neg (Bool.eq_false_iff.mp new)]
    obtain ⟨same, _, fact, _, ready'⟩ := ready.withFact asserted
    refine ⟨⟨⟨_, ready', ?_⟩, ?_, ?_, spoken speaks⟩, rfl⟩
    · show List.map _ _ = inForce (fs ++ [f])
      rw [more, List.map_append, formulas, List.map_singleton]
    · intro name hname
      show name ∈ s.signature.constants
      rw [same.signature]
      exact sound.declared name hname
    · show (d.facts ++ [(_, f.render)]).map Prod.snd = (inForce (fs ++ [f])).map Formula.render
      rw [more, List.map_append, List.map_append, sound.texts]
      rfl

/-- A further handle, declared before. -/
theorem Sound.addHandle {name : String} (sound : Sound sat ⟨d, fs⟩)
    (declared : name ∈ (d.current sat).signature.constants) :
    Sound sat ⟨{ d with handles := d.handles ++ [name] }, fs⟩ where
  ready := sound.ready.imp fun _ h => ⟨h.1.addHandle name, h.2⟩
  declared := List.forall_mem_append.mpr ⟨sound.declared, List.forall_mem_singleton.mpr declared⟩
  texts := sound.texts
  speaks f hf name hname := List.mem_append_left _ (sound.speaks f hf name hname)

/-- A fresh handle is always given.  It has the next number, and comes with the fact
of its range. -/
theorem Sound.fresh (sound : Sound sat ⟨d, fs⟩) (cancelled : Bool) (text : String) :
    ∃ e, (Discharger.freshSymbol cancelled text).perform d =
        (.ok (Discharger.symbolStem text ++ toString d.nonce), e) ∧
      Sound sat
        ⟨e, fs ++ [Discharger.handleRange (Discharger.symbolStem text ++ toString d.nonce)]⟩ ∧
      e.handles = d.handles ++ [Discharger.symbolStem text ++ toString d.nonce] ∧
      e.nonce = d.nonce + 1 := by
  obtain ⟨log, ready, _⟩ := sound.ready
  obtain ⟨c, e, kept, declared, push, fresh, nonce⟩ := ready.exists_fresh cancelled text
  obtain ⟨sound', handles⟩ := ((sound.kept kept).addHandle declared).push push
  refine ⟨e, fresh, sound', ?_, nonce⟩
  rw [handles, ← kept.handles]

/-! ### Shapes -/

/-- The fact that a tensor has a dimension at a place. -/
def dimensionFact (symbol : String) (place : Nat) (dim : UInt64) : Formula Term :=
  .compare .eq (dimensionOf (.symbol symbol) place) (.literal dim)

/-- The facts that the dimensions from a place on are the given ones. -/
def dimensionFacts (symbol : String) : Nat → List UInt64 → List (Formula Term)
  | _, [] => []
  | place, dim :: dims => dimensionFact symbol place dim :: dimensionFacts symbol (place + 1) dims

theorem symbols_dimensionFact (symbol : String) (place : Nat) (dim : UInt64) :
    (dimensionFact symbol place dim).symbols = [symbol] := by
  simp [dimensionFact, dimensionOf, Formula.symbols, Formula.leaves, Term.symbols,
    Term.symbolsList, List.eraseDups_cons]

/-- The dimensions of a declared handle can always be pushed. -/
theorem exists_pushDimensions {log : List Entry} {symbol : String} (cancelled : Bool) (place : Nat)
    (dims : List UInt64) (ready : Ready sat log d) (handle : symbol ∈ d.handles)
    (declared : symbol ∈ (d.current sat).signature.constants) :
    ∃ e, (Discharger.pushDimensions cancelled symbol place dims).perform d = (.ok (), e) := by
  induction dims generalizing d log place with
  | nil => exact ⟨d, rfl⟩
  | cons dim dims ih =>
      have only {P : String → Prop} (h : P symbol) :
          ∀ s ∈ (dimensionFact symbol place dim).symbols, P s := by
        rw [symbols_dimensionFact]
        exact List.forall_mem_singleton.mpr h
      obtain ⟨c, push, _⟩ := ready.exists_push cancelled (f := dimensionFact symbol place dim) rfl
        (only handle) (only declared)
      have rest : ∃ e, (Discharger.pushDimensions cancelled symbol (place + 1) dims).perform c =
          (.ok (), e) := by
        obtain ⟨_, ⟨_, rfl⟩ | ⟨_, s, asserted, rfl⟩⟩ :=
          Discharger.pushConstraint_ok ready.inProcess push
        · exact ih (place + 1) ready handle declared
        · obtain ⟨same, _, _, _, ready'⟩ := ready.withFact asserted
          exact ih (place + 1) ready' handle (same.signature.symm ▸ declared)
      obtain ⟨e, rest⟩ := rest
      refine ⟨e, ?_⟩
      rw [Discharger.pushDimensions]
      exact (perform_bind_ok push).trans rest

/-- What every push preserves is preserved when the dimensions of a handle are pushed. -/
theorem pushDimensions_ok {P : Dialogue → Prop} {cancelled : Bool} {symbol : String}
    (push : ∀ {d e : Discharger BitBlaster} {fs : List (Formula Term)} {f : Formula Term}, P ⟨d, fs⟩ →
      (Discharger.pushConstraint cancelled f).perform d = (.ok (), e) → P ⟨e, fs ++ [f]⟩)
    (place : Nat) (dims : List UInt64) (holds : P ⟨d, fs⟩)
    (h : (Discharger.pushDimensions cancelled symbol place dims).perform d = (.ok (), e)) :
    P ⟨e, fs ++ dimensionFacts symbol place dims⟩ := by
  induction dims generalizing d fs place with
  | nil =>
      cases h
      rwa [dimensionFacts, List.append_nil]
  | cons dim dims ih =>
      rw [Discharger.pushDimensions] at h
      obtain ⟨_, c, first, rest⟩ := bind_ok h
      have pushed := ih (place + 1) (push holds first) rest
      rwa [List.append_assoc] at pushed

theorem Sound.shape (sound : Sound sat ⟨d, fs⟩) (cancelled : Bool) (symbol : String)
    (dims : List UInt64) :
    match (Discharger.assertShape cancelled symbol dims).perform d with
    | (.ok _, e) => Sound sat ⟨e, fs ++ dimensionFacts symbol 0 dims⟩
    | (.error _, e) => Sound sat ⟨e, fs⟩ := by
  unfold Discharger.assertShape
  rw [perform_bind_ok perform_get]
  cases known : d.handles.contains symbol with
  | true =>
      have handle := List.contains_iff_mem.mp known
      obtain ⟨log, ready, _⟩ := sound.ready
      obtain ⟨e, push⟩ := exists_pushDimensions cancelled 0 dims ready handle
        (sound.declared symbol handle)
      simp only [Bool.not_true, Bool.false_eq_true, if_false, push]
      exact pushDimensions_ok (fun sound h => (Sound.push sound h).1) 0 dims sound push
  | false => exact sound

/-! ### Runs -/

/-- A request to a discharger. -/
inductive Request
  | fresh (cancelled : Bool) (text : String)
  | push (cancelled : Bool) (fact : Formula Term)
  | assertShape (cancelled : Bool) (symbol : String) (dims : List UInt64)
  | enqueue (obligation : Obligation)
  | flush (gaveUp : Nat → Bool)
  | discharge (cancelled : Bool) (obligation : Obligation)

/-- The dialogue after one more request. -/
def step (p : Dialogue) : Request → Dialogue
  | .fresh cancelled text =>
    match (Discharger.freshSymbol cancelled text).perform p.discharger with
    | (.ok name, d) => ⟨d, p.pushed ++ [Discharger.handleRange name]⟩
    | (.error _, d) => ⟨d, p.pushed⟩
  | .push cancelled fact =>
    match (Discharger.pushConstraint cancelled fact).perform p.discharger with
    | (.ok _, d) => ⟨d, p.pushed ++ [fact]⟩
    | (.error _, d) => ⟨d, p.pushed⟩
  | .assertShape cancelled symbol dims =>
    match (Discharger.assertShape cancelled symbol dims).perform p.discharger with
    | (.ok _, d) => ⟨d, p.pushed ++ dimensionFacts symbol 0 dims⟩
    | (.error _, d) => ⟨d, p.pushed⟩
  | .enqueue o => ⟨((Discharger.enqueue o).perform p.discharger).2, p.pushed⟩
  | .flush gaveUp => ⟨((Discharger.flush gaveUp).run p.discharger).2, p.pushed⟩
  | .discharge cancelled o =>
    ⟨((Discharger.discharge cancelled o).perform p.discharger).2, p.pushed⟩

/-- The dialogue with a new discharger, before the first request. -/
def start (sat : SatSolver) (config : SolverConfig) (ledger : Ledger) : Dialogue :=
  ⟨{ config, ledger, opening := Discharger.openInProcess sat config }, []⟩

/-- The dialogue with a new discharger. -/
def run (sat : SatSolver) (config : SolverConfig) (ledger : Ledger) (qs : List Request) :
    Dialogue :=
  qs.foldl step (start sat config ledger)

theorem run_append (sat : SatSolver) (config : SolverConfig) (ledger : Ledger)
    (qs : List Request) (q : Request) :
    run sat config ledger (qs ++ [q]) = (run sat config ledger qs).step q := by
  unfold run
  rw [List.foldl_append]
  rfl

theorem Sound.start (sat : SatSolver) (config : SolverConfig) (ledger : Ledger) :
    Sound sat (start sat config ledger) where
  ready := ⟨[], ⟨rfl, Discharger.shaped_start sat _⟩, rfl⟩
  declared _ h := (List.not_mem_nil h).elim
  texts := rfl
  speaks _ h := (List.not_mem_nil h).elim

/-- One request preserves what holds between requests. -/
theorem Sound.step {p : Dialogue} (sound : Sound sat p) (q : Request) : Sound sat (p.step q) := by
  obtain ⟨log, ready, _⟩ := sound.ready
  cases q with
  | fresh cancelled text =>
      obtain ⟨e, fresh, sound', _, _⟩ := sound.fresh cancelled text
      unfold Dialogue.step
      dsimp only
      rw [fresh]
      exact sound'
  | push cancelled fact =>
      unfold Dialogue.step
      dsimp only
      split
      next h => exact (sound.push h).1
      next h => exact sound.kept (Discharger.kept_push_refused ready h)
  | assertShape cancelled symbol dims =>
      have shape := sound.shape cancelled symbol dims
      unfold Dialogue.step
      dsimp only
      split
      next h =>
        rw [h] at shape
        exact shape
      next h =>
        rw [h] at shape
        exact shape
  | enqueue o => exact sound.kept (Discharger.kept_enqueue o)
  | flush gaveUp => exact sound.kept (Discharger.kept_flush ready gaveUp)
  | discharge cancelled o => exact sound.kept (Discharger.kept_discharge ready cancelled o)

/-- A run preserves what holds between requests. -/
theorem sound_run (sat : SatSolver) (config : SolverConfig) (ledger : Ledger)
    (qs : List Request) : Sound sat (run sat config ledger qs) := by
  induction qs using List.reverseRecOn with
  | nil => exact .start sat config ledger
  | append_singleton qs q ih => exact run_append sat config ledger qs q ▸ ih.step q

/-- A well-formed fact about handles is always accepted. -/
theorem Sound.pushed_push {p : Dialogue} (sound : Sound sat p) (cancelled : Bool)
    {f : Formula Term} (wellFormed : f.isWellFormed = true) (speaks : SpeaksOf p.discharger f) :
    (p.step (.push cancelled f)).pushed = p.pushed ++ [f] := by
  obtain ⟨log, ready, _⟩ := sound.ready
  obtain ⟨e, push, _⟩ := ready.exists_push cancelled wellFormed speaks fun name hname =>
    sound.declared name (speaks name hname)
  unfold Dialogue.step
  dsimp only
  rw [push]

/-- The shape of a handle is always accepted. -/
theorem Sound.pushed_assertShape {p : Dialogue} (sound : Sound sat p) (cancelled : Bool)
    {symbol : String} (known : symbol ∈ p.discharger.handles) (dims : List UInt64) :
    (p.step (.assertShape cancelled symbol dims)).pushed =
      p.pushed ++ dimensionFacts symbol 0 dims := by
  obtain ⟨log, ready, _⟩ := sound.ready
  obtain ⟨e, pushed⟩ := exists_pushDimensions cancelled 0 dims ready known
    (sound.declared symbol known)
  have asserted : (Discharger.assertShape cancelled symbol dims).perform p.discharger =
      (.ok (), e) := by
    unfold Discharger.assertShape
    rw [perform_get_bind, List.contains_iff_mem.mpr known]
    exact pushed
  unfold Dialogue.step
  dsimp only
  rw [asserted]

/-- A run that only asks for handles gives them the numbers from zero on. -/
theorem run_fresh (sat : SatSolver) (config : SolverConfig) (ledger : Ledger)
    (texts : List String) :
    let p := run sat config ledger (texts.map (.fresh false))
    let names := texts.zipIdx.map fun t => Discharger.symbolStem t.1 ++ toString t.2
    p.pushed = names.map Discharger.handleRange ∧ p.discharger.handles = names ∧
      p.discharger.nonce = texts.length := by
  induction texts using List.reverseRecOn with
  | nil => exact ⟨rfl, rfl, rfl⟩
  | append_singleton texts text ih =>
      have last : run sat config ledger ((texts ++ [text]).map (.fresh false)) =
          (run sat config ledger (texts.map (.fresh false))).step (.fresh false text) := by
        rw [List.map_append]
        exact run_append sat config ledger _ _
      have sound := sound_run sat config ledger (texts.map (.fresh false))
      rw [last]
      generalize run sat config ledger (texts.map (.fresh false)) = p at sound ih ⊢
      obtain ⟨d, fs⟩ := p
      obtain ⟨e, fresh, _, handles, nonce⟩ := sound.fresh false text
      obtain ⟨rfl, known, count⟩ : _ ∧ _ ∧ d.nonce = texts.length := ih
      rw [step, fresh]
      have names : (texts ++ [text]).zipIdx.map (fun t => Discharger.symbolStem t.1 ++ toString t.2) =
          texts.zipIdx.map (fun t => Discharger.symbolStem t.1 ++ toString t.2) ++
            [Discharger.symbolStem text ++ toString d.nonce] := by
        rw [count, List.zipIdx_append, List.map_append]
        simp
      refine ⟨?_, ?_, ?_⟩
      · rw [names, List.map_append]
        rfl
      · rw [names, ← known]
        exact handles
      · show e.nonce = (texts ++ [text]).length
        rw [nonce, count, List.length_append]
        rfl

/-- The first handle, when nothing else was asked for. -/
theorem run_one_fresh (sat : SatSolver) (config : SolverConfig) (ledger : Ledger)
    {text symbol : String} (name : Discharger.symbolStem text ++ toString 0 = symbol) :
    (run sat config ledger [.fresh false text]).pushed = [Discharger.handleRange symbol] ∧
      symbol ∈ (run sat config ledger [.fresh false text]).discharger.handles := by
  obtain ⟨pushed, handles, _⟩ := run_fresh sat config ledger [text]
  rw [← name]
  exact ⟨pushed, handles ▸ List.mem_cons_self⟩

end Dialogue

end ResourceSafety
