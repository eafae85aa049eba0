import ResourceSafety.Ledger.Basic
import ResourceSafety.Proofs.Discharge.Naming
import ResourceSafety.Proofs.Discharge.Queue
import ResourceSafety.Proofs.Discharge.Verdict
import ResourceSafety.Proofs.Logic.Core

/-!
# Notes are certificates

A proof leaves a note with the text of the goal that was refuted and the texts of the facts
that refute it.  The note can be checked without the discharger: its texts are those of plain
formulas, the facts were pushed before, and no interpretation makes them and the goal true
(`Note.Certifies`).

Facts reach a note in three steps.  The SAT solver gives the guards that it failed on.  The
session knows the name of each guard, which is `fact0`, `fact1` and so on.  The discharger keeps
the text of each name.  A dialogue is *vouched for* when these agree: names are distinct, every
text was pushed, and every formula that the session asserts has the text of its name
(`Dialogue.Vouched`).

A discharger that was closed begins a new session and keeps its names.  The new session has
none of the old facts, so there is less to vouch for.
-/

namespace ResourceSafety

open Logic (BitBlaster Formula Interpretation NamedFact SatSolver Satisfiable Term Verdict
  clauseLearning clauseLearning_decides)
open Logic.BitBlaster (Entry)

/-! ## Certificates -/

theorem conjunctionText_render (fs : List (Formula Term)) :
    conjunctionText (fs.map Formula.render) =
      if fs = [] then "" else (Formula.all fs).render := by
  rw [Formula.render_all]
  match fs with
  | [] => rfl
  | [f] => rfl
  | f :: g :: fs =>
    rw [if_neg (List.cons_ne_nil _ _)]
    rfl

/-- The note says that the goal cannot hold with the facts, and that is so.  The facts have texts
that were pushed. -/
structure Note.Certifies (note : Note) (pushed facts : List (Formula Term)) (goal : Formula Term) :
    Prop where
  /-- The texts say what facts and goal mean. -/
  plain : ∀ f ∈ facts ++ [goal], f.Plain
  /-- Each fact has the text of one that was pushed, and says the same. -/
  pushed : ∀ f ∈ facts, ∃ g ∈ pushed, g.render = f.render ∧
    (g.Plain → ∀ i : Interpretation, g.holdsIn i = f.holdsIn i)
  coreText : note.core = facts.map Formula.render
  goalText : note.goal = goal.render
  /-- The lemma is the conjunction of the facts. -/
  lemmaText : note.derived = if facts = [] then "" else (Formula.all facts).render
  unsatisfiable : ¬Satisfiable (facts ++ [goal])
  /-- The lemma entails that the goal fails. -/
  entails : ∀ i : Interpretation, (Formula.all facts).holdsIn i = true →
    (Formula.not goal).holdsIn i = true

/-- The core lists a fact when the goal alone can hold. -/
theorem Note.Certifies.core_ne_nil {note : Note} {pushed facts : List (Formula Term)}
    {goal f : Formula Term} (h : note.Certifies pushed facts goal) (plain : f.Plain)
    (text : note.goal = f.render) {i : Interpretation} (holds : f.holdsIn i = true) :
    note.core ≠ [] := by
  intro empty
  have none : facts = [] := by
    have texts := h.coreText
    rw [empty] at texts
    exact List.map_eq_nil_iff.mp texts.symm
  subst none
  have plainGoal := h.plain goal (List.mem_append_right _ List.mem_cons_self)
  refine h.unsatisfiable ⟨i, List.forall_mem_singleton.mpr ?_⟩
  rw [Formula.holdsIn_of_render_eq plainGoal plain (h.goalText.symm.trans text)]
  exact holds

/-- Facts that cannot hold with a goal entail that it fails. -/
theorem Logic.holdsIn_not_of_unsatisfiable {facts : List (Formula Term)}
    {goal : Formula Term} (h : ¬Satisfiable (facts ++ [goal])) (i : Interpretation)
    (holds : (Formula.all facts).holdsIn i = true) : (Formula.not goal).holdsIn i = true := by
  have each : ∀ f ∈ facts, f.holdsIn i = true := Formula.eval_all_iff.mp holds
  show (!goal.holdsIn i) = true
  cases refuted : goal.holdsIn i with
  | false => rfl
  | true =>
      exact absurd
        ⟨i, List.forall_mem_append.mpr ⟨each, List.forall_mem_singleton.mpr refuted⟩⟩ h

namespace Discharger

open Logic.Action

variable {d e : Discharger BitBlaster} {sat : SatSolver} {log : List Entry}

/-! ## The question behind a note -/

/-- A verdict was given by the session, in a state that a dialogue cannot tell from the first. -/
theorem exists_check_of_ask (ready : Ready sat log d) {o : Obligation} {goal : Formula Term}
    {binding : String} {v : Verdict} (h : (ask o).perform d = (.ok (goal, binding, v), e)) :
    ∃ c s, Kept sat d c ∧ (BitBlaster.check false goal).perform (c.current sat) = (.ok v, s) := by
  unfold ask at h
  rw [perform_bind_ok (perform_ensure ready.inProcess false)] at h
  obtain ⟨⟨goal', binding'⟩, c, refuted, h⟩ := bind_ok h
  have kept := (kept_ensure sat d).trans (kept_refutation (ready.kept (kept_ensure sat d)) o)
  rw [refuted] at kept
  rw [perform_bind_ok (perform_ensure (ready.kept kept).inProcess false)] at h
  dsimp only at h
  rw [perform_modify_bind] at h
  rcases answer : (BitBlaster.check false goal').perform (c.current sat) with ⟨result, s⟩
  have given : (Logic.Solver.check false goal' : Logic.Action BitBlaster Verdict).perform
      (c.current sat) = (result, s) := answer
  rw [given] at h
  cases result with
  | error fault => cases h
  | ok w =>
      cases h
      exact ⟨c, s, kept, answer⟩

end Discharger

/-! ## What is vouched for -/

namespace Dialogue

open Logic.Action
open Discharger (Kept Ready factName)

variable {sat : SatSolver} {d e : Discharger BitBlaster} {fs : List (Formula Term)}

/-- The session, the names of the facts and the texts that were pushed agree. -/
structure Vouched (sat : SatSolver) (p : Dialogue) : Prop where
  /-- Each formula that the session asserts has the text of its name. -/
  ready : ∃ log, Ready sat log p.discharger ∧
    ∀ e ∈ log, ∃ fact, e.1 = some fact ∧ (fact.name, e.2.render) ∈ p.discharger.facts
  /-- Handles have names. -/
  proper : ∀ h ∈ p.discharger.handles, Logic.isName h = true
  /-- Facts are numbered. -/
  names : p.discharger.facts.map Prod.fst = (List.range p.discharger.facts.length).map factName
  /-- Each text was pushed. -/
  texts : ∀ fact ∈ p.discharger.facts, ∃ g ∈ p.pushed, g.render = fact.2

namespace Vouched

theorem kept (vouched : Vouched sat ⟨d, fs⟩) (kept : Kept sat d e) : Vouched sat ⟨e, fs⟩ where
  ready := by
    obtain ⟨log, ready, held⟩ := vouched.ready
    refine ⟨log, ready.kept kept, ?_⟩
    show ∀ entry ∈ log, ∃ fact, entry.1 = some fact ∧ (fact.name, entry.2.render) ∈ e.facts
    rw [kept.facts]
    exact held
  proper h hh := vouched.proper h (kept.handles ▸ hh)
  names := by
    show e.facts.map Prod.fst = (List.range e.facts.length).map factName
    rw [kept.facts]
    exact vouched.names
  texts fact hfact := vouched.texts fact (kept.facts ▸ hfact)

/-- The text of a fact can be found under its name. -/
theorem lookup_eq (vouched : Vouched sat ⟨d, fs⟩) {name text : String} (h : (name, text) ∈ d.facts) :
    d.facts.lookup name = some text := by
  have distinct : (d.facts.map Prod.fst).Nodup := by
    rw [vouched.names]
    exact List.nodup_range.map Discharger.factName_injective
  obtain ⟨before, after, split⟩ := List.append_of_mem h
  refine List.lookup_eq_some_iff.mpr ⟨before, after, split, fun fact hfact => ?_⟩
  rw [split, List.map_append, List.nodup_append] at distinct
  exact bne_iff_ne.mpr
    (distinct.2.2 fact.1 (List.mem_map_of_mem hfact) name List.mem_cons_self).symm

/-- The names of facts lead to the texts of their formulas. -/
theorem map_lookup (vouched : Vouched sat ⟨d, fs⟩) {kept : List (NamedFact × Formula Term)}
    (texts : ∀ k ∈ kept, (k.1.name, k.2.render) ∈ d.facts) :
    (kept.map (·.1.name)).map (fun name => (d.facts.lookup name).getD name) =
      (kept.map (·.2.reading)).map Formula.render := by
  rw [List.map_map, List.map_map]
  refine List.map_congr_left fun k hk => ?_
  show (d.facts.lookup k.1.name).getD k.1.name = k.2.reading.render
  rw [vouched.lookup_eq (texts k hk), Formula.render_reading]
  rfl

/-- A proof leaves a certificate. -/
theorem certifies (vouched : Vouched sat ⟨d, fs⟩) (cores : sat.CoresRefute) {o : Obligation}
    {goal : Formula Term} {binding : String} {core : List String}
    (answer : (Discharger.ask o).perform d = (.ok (goal, binding, .unsat core), e)) :
    ∃ facts r, (e.noteOf o goal core).Certifies fs facts r := by
  have consults := Discharger.moves_ask o d
  rw [answer] at consults
  obtain ⟨log, ready, held⟩ := vouched.ready
  obtain ⟨c, s, asked, checked⟩ := Discharger.exists_check_of_ask ready answer
  have faithful := (ready.kept asked).shaped.faithful
  obtain ⟨_, _, _, posed⟩ := BitBlaster.runs_check faithful.sound faithful.opened false goal
  rw [checked] at posed
  obtain ⟨l, c', answered, _⟩ := posed _ rfl
  have named : ∀ entry ∈ log, entry.1 ≠ none := fun entry mem none => by
    obtain ⟨fact, some, _⟩ := held entry mem
    rw [none] at some
    cases some
  obtain ⟨kept, listed, rfl, unsatisfiable⟩ := answered.exists_core faithful cores named
  have pushed : ∀ k ∈ kept, (k.1.name, k.2.render) ∈ d.facts := fun k hk => by
    obtain ⟨fact, eq, mem⟩ := held _ (listed k hk)
    obtain rfl := Option.some.inj eq
    exact mem
  have plain : ∀ f ∈ kept.map (·.2.reading), f.Plain :=
    List.forall_mem_map.mpr fun k hk => faithful.asserts.plain _ (listed k hk)
  have texts := vouched.map_lookup pushed
  rw [← consults.facts] at texts
  refine ⟨_, goal.reading, ?_, ?_, texts, goal.render_reading.symm, ?_, unsatisfiable,
    Logic.holdsIn_not_of_unsatisfiable unsatisfiable⟩
  · exact List.forall_mem_append.mpr ⟨plain, List.forall_mem_singleton.mpr
      (Formula.plain_reading fun t ht => (answered.known t ht).1)⟩
  · refine List.forall_mem_map.mpr fun k hk => ?_
    obtain ⟨g, hg, text⟩ := vouched.texts _ (pushed k hk)
    have same := text.trans k.2.render_reading.symm
    exact ⟨g, hg, same, fun plainFact =>
      Formula.holdsIn_of_render_eq plainFact (plain _ (List.mem_map_of_mem hk)) same⟩
  · rw [← conjunctionText_render, ← texts]
    rfl

/-! ### Requests -/

/-- A further handle with a name. -/
theorem addHandle (vouched : Vouched sat ⟨d, fs⟩) {name : String}
    (proper : Logic.isName name = true) :
    Vouched sat ⟨{ d with handles := d.handles ++ [name] }, fs⟩ where
  ready := vouched.ready.imp fun _ h => ⟨h.1.addHandle name, h.2⟩
  proper := List.forall_mem_append.mpr ⟨vouched.proper, List.forall_mem_singleton.mpr proper⟩
  names := vouched.names
  texts := vouched.texts

/-- A fact that was pushed without a fault is vouched for. -/
theorem push {cancelled : Bool} {f : Formula Term} (vouched : Vouched sat ⟨d, fs⟩)
    (h : (Discharger.pushConstraint cancelled f).perform d = (.ok (), e)) :
    Vouched sat ⟨e, fs ++ [f]⟩ := by
  obtain ⟨log, ready, held⟩ := vouched.ready
  have still : ∀ fact ∈ d.facts, ∃ g ∈ fs ++ [f], g.render = fact.2 := fun fact hfact =>
    (vouched.texts fact hfact).imp fun _ pushed => ⟨List.mem_append_left _ pushed.1, pushed.2⟩
  obtain ⟨_, ⟨_, rfl⟩ | ⟨_, s, asserted, rfl⟩⟩ := Discharger.pushConstraint_ok ready.inProcess h
  · exact ⟨vouched.ready, vouched.proper, vouched.names, still⟩
  · obtain ⟨_, _, fact, name, ready'⟩ := ready.withFact asserted
    refine ⟨⟨_, ready', List.forall_mem_append.mpr ⟨fun entry mem => ?_, ?_⟩⟩, vouched.proper, ?_, ?_⟩
    · obtain ⟨old, some, text⟩ := held entry mem
      exact ⟨old, some, List.mem_append_left _ text⟩
    · refine List.forall_mem_singleton.mpr ⟨fact, rfl, List.mem_append_right _ ?_⟩
      rw [name]
      exact List.mem_cons_self
    · show (d.facts ++ [(factName d.facts.length, f.render)]).map Prod.fst =
        (List.range (d.facts ++ [(factName d.facts.length, f.render)]).length).map factName
      rw [List.map_append, vouched.names, List.length_append, List.length_singleton,
        List.range_succ, List.map_append]
      rfl
    · exact List.forall_mem_append.mpr ⟨still, List.forall_mem_singleton.mpr
        ⟨f, List.mem_append_right _ List.mem_cons_self, rfl⟩⟩

theorem fresh (vouched : Vouched sat ⟨d, fs⟩) (cancelled : Bool) (text : String) :
    Vouched sat (Dialogue.step ⟨d, fs⟩ (.fresh cancelled text)) := by
  obtain ⟨_, ready, _⟩ := vouched.ready
  obtain ⟨c, e, kept, -, push, fresh, -⟩ := ready.exists_fresh cancelled text
  unfold Dialogue.step
  dsimp only
  rw [fresh]
  exact ((vouched.kept kept).addHandle (Discharger.isName_symbolStem text d.nonce)).push push

end Vouched

/-! ### Shapes of handles from before -/

theorem plain_dimensionFact {symbol : String} (proper : Logic.isName symbol = true) (place : Nat)
    (dim : UInt64) : (dimensionFact symbol place dim).Plain := by
  refine Formula.plain_of_isWellFormed rfl ?_
  rw [symbols_dimensionFact]
  exact List.forall_mem_singleton.mpr proper

/-- Of a handle that is not declared in the session, no dimension is accepted that is not known
already. -/
theorem eq_of_push_undeclared {log : List Entry} {cancelled : Bool} {symbol : String} {place : Nat}
    {dim : UInt64} (ready : Ready sat log d) (proper : Logic.isName symbol = true)
    (undeclared : symbol ∉ (d.current sat).signature.constants)
    (h : (Discharger.pushConstraint cancelled (dimensionFact symbol place dim)).perform d =
      (.ok (), e)) : e = d := by
  obtain ⟨_, ⟨_, rfl⟩ | ⟨_, s, asserted, _⟩⟩ := Discharger.pushConstraint_ok ready.inProcess h
  · rfl
  · obtain ⟨same, known, _, _, ready'⟩ := ready.withFact asserted
    have leaf : dimensionOf (.symbol symbol) place ∈ (dimensionFact symbol place dim).leaves :=
      List.mem_cons_self
    have plain := plain_dimensionFact proper place dim _ leaf
    obtain ⟨_, w, word⟩ := known _ leaf
    rw [Term.reading_of_plain plain] at word
    obtain ⟨_, args⟩ := ready'.shaped.faithful.sound.known_args plain word
    obtain ⟨x, word⟩ := args (.symbol symbol) List.mem_cons_self
    rw [← same.signature] at undeclared
    exact absurd (BitBlaster.mem_constants_of_lookup word) undeclared

/-- A shape that was refused changes nothing a dialogue relies on. -/
theorem kept_pushDimensions_refused {log : List Entry} {cancelled : Bool} {symbol : String}
    {fault : Fault} (place : Nat) (dims : List UInt64) (ready : Ready sat log d)
    (proper : Logic.isName symbol = true)
    (undeclared : symbol ∉ (d.current sat).signature.constants)
    (h : (Discharger.pushDimensions cancelled symbol place dims).perform d = (.error fault, e)) :
    Kept sat d e := by
  induction dims generalizing place with
  | nil => cases h
  | cons dim dims ih =>
      rw [Discharger.pushDimensions, perform_bind] at h
      split at h
      next _ c first =>
        rw [eq_of_push_undeclared ready proper undeclared first] at h
        exact ih (place + 1) h
      next _ c first =>
        cases h
        exact Discharger.kept_push_refused ready first

namespace Vouched

theorem shape (vouched : Vouched sat ⟨d, fs⟩) (cancelled : Bool) (symbol : String)
    (dims : List UInt64) :
    Vouched sat (Dialogue.step ⟨d, fs⟩ (.assertShape cancelled symbol dims)) := by
  obtain ⟨_, ready, _⟩ := vouched.ready
  unfold Dialogue.step Discharger.assertShape
  dsimp only
  rw [perform_get_bind]
  cases known : d.handles.contains symbol with
  | false => exact vouched
  | true =>
      have handle := List.contains_iff_mem.mp known
      simp only [Bool.not_true, Bool.false_eq_true, if_false]
      rcases told : (Discharger.pushDimensions cancelled symbol 0 dims).perform d with ⟨fault | _, e⟩
      · by_cases declared : symbol ∈ (d.current sat).signature.constants
        · obtain ⟨c, pushed⟩ := exists_pushDimensions cancelled 0 dims ready handle declared
          rw [told] at pushed
          cases pushed
        · exact vouched.kept (kept_pushDimensions_refused 0 dims ready
            (vouched.proper symbol handle) declared told)
      · exact pushDimensions_ok Vouched.push 0 dims vouched told

/-- One request preserves what is vouched for. -/
theorem step {p : Dialogue} (vouched : Vouched sat p) (q : Request) : Vouched sat (p.step q) := by
  obtain ⟨_, ready, _⟩ := vouched.ready
  cases q with
  | fresh cancelled text => exact vouched.fresh cancelled text
  | push cancelled fact =>
      unfold Dialogue.step
      dsimp only
      split
      next h => exact vouched.push h
      next h => exact vouched.kept (Discharger.kept_push_refused ready h)
  | assertShape cancelled symbol dims => exact vouched.shape cancelled symbol dims
  | enqueue o => exact vouched.kept (Discharger.kept_enqueue o)
  | flush gaveUp => exact vouched.kept (Discharger.kept_flush ready gaveUp)
  | discharge cancelled o => exact vouched.kept (Discharger.kept_discharge ready cancelled o)

end Vouched

/-! ## Notes -/

/-- The ledger has grown by certificates over the facts that were pushed. -/
def Certified (fs : List (Formula Term)) (d e : Discharger BitBlaster) : Prop :=
  ∃ new : List Note, e.ledger.notes = d.ledger.notes ++ new ∧
    ∀ note ∈ new, ∃ facts goal, note.Certifies fs facts goal

theorem Certified.of_eq (ledger : e.ledger = d.ledger) : Certified fs d e :=
  ⟨[], by rw [ledger, List.append_nil], List.forall_mem_nil _⟩

theorem Certified.trans {c : Discharger BitBlaster} (first : Certified fs d c)
    (second : Certified fs c e) : Certified fs d e := by
  obtain ⟨new, notes, certified⟩ := first
  obtain ⟨more, notes', certified'⟩ := second
  refine ⟨new ++ more, ?_, List.forall_mem_append.mpr ⟨certified, certified'⟩⟩
  rw [notes', notes, List.append_assoc]

namespace Vouched

/-- An obligation that is decided adds a certificate, if it adds a note. -/
theorem decides {o : Obligation} {fate : Discharger.Fate} (vouched : Vouched sat ⟨d, fs⟩)
    (cores : sat.CoresRefute) (h : Discharger.Decides o d fate e) :
    Certified fs d e ∧ Vouched sat ⟨e, fs⟩ := by
  obtain ⟨_, ready, _⟩ := vouched.ready
  have kept := Discharger.kept_solve ready o
  rw [Discharger.perform_solve_eq] at kept
  obtain ⟨-, notes⟩ := h.books
  cases h with
  | unsat answer =>
      rw [answer] at kept
      exact ⟨⟨_, notes, List.forall_mem_singleton.mpr (vouched.certifies cores answer)⟩,
        vouched.kept kept⟩
  | sat answer | unknown answer | fault answer =>
      rw [answer] at kept
      exact ⟨⟨_, notes, List.forall_mem_nil _⟩, vouched.kept kept⟩

/-- A flush adds certificates. -/
theorem works {started : List (Obligation × Discharger.Fate)} (vouched : Vouched sat ⟨d, fs⟩)
    (cores : sat.CoresRefute) (h : Discharger.Works d started e) : Certified fs d e := by
  induction h with
  | nil d => exact .of_eq rfl
  | cons _ decides _ ih =>
      obtain ⟨first, vouched'⟩ := vouched.decides cores decides
      exact first.trans (ih (vouched'.kept (.of_eq rfl rfl rfl rfl rfl)))

theorem solve (vouched : Vouched sat ⟨d, fs⟩) (cores : sat.CoresRefute) (o : Obligation) :
    Certified fs d ((Discharger.solve o).perform d).2 := by
  obtain ⟨fate, e, decides, outcome⟩ := Discharger.exists_decides o d
  rcases solved : (Discharger.solve o).perform d with ⟨fault | _, c⟩
  · rw [solved] at outcome
    exact outcome.1 ▸ (vouched.decides cores decides).1
  · rw [solved] at outcome
    exact outcome.1 ▸ (vouched.decides cores decides).1

theorem discharge (vouched : Vouched sat ⟨d, fs⟩) (cores : sat.CoresRefute) (cancelled : Bool)
    (o : Obligation) : Certified fs d ((Discharger.discharge cancelled o).perform d).2 := by
  unfold Discharger.discharge
  rw [perform_bind, Discharger.perform_requireStated]
  cases d.refusal? o with
  | some fault => exact .of_eq rfl
  | none =>
      cases cancelled with
      | true => exact .of_eq rfl
      | false => exact vouched.solve cores o

/-- One request adds certificates only. -/
theorem certified {p : Dialogue} (vouched : Vouched sat p) (cores : sat.CoresRefute)
    (q : Request) : Certified p.pushed p.discharger (p.step q).discharger := by
  rw [discharger_step]
  cases q with
  | fresh cancelled text =>
      exact .of_eq (Discharger.tells_freshSymbol cancelled text p.discharger).ledger
  | push cancelled fact =>
      exact .of_eq (Discharger.tells_pushConstraint cancelled fact p.discharger).ledger
  | assertShape cancelled symbol dims =>
      exact .of_eq (Discharger.tells_assertShape cancelled symbol dims p.discharger).ledger
  | enqueue o => exact .of_eq (Discharger.tells_enqueue o p.discharger).ledger
  | flush gaveUp =>
      obtain ⟨started, found, fault, e, flushed, works, -⟩ :=
        Discharger.exists_works gaveUp p.discharger
      show Certified p.pushed p.discharger ((Discharger.flush gaveUp).run p.discharger).2
      rw [flushed]
      exact vouched.works cores works
  | discharge cancelled o => exact vouched.discharge cores cancelled o

end Vouched

/-! ## Turns -/

/-- A request to the discharger, or the end of its session. -/
inductive Turn
  | ask (q : Request)
  | close

/-- The dialogue after one more turn. -/
def turn (p : Dialogue) : Turn → Dialogue
  | .ask q => p.step q
  | .close => ⟨(Discharger.close.perform p.discharger).2, p.pushed⟩

/-- The dialogue that a new discharger has had after turns. -/
def runTurns (sat : SatSolver) (config : SolverConfig) (ledger : Ledger) (ts : List Turn) :
    Dialogue :=
  ts.foldl turn (start sat config ledger)

theorem perform_close (d : Discharger BitBlaster) :
    ∃ r ended, Discharger.close.perform d = (r, { d with session := none, ended }) := by
  unfold Discharger.close
  rw [perform_get_bind]
  cases session : d.session with
  | none =>
      have same : { d with session := none } = d := by
        cases d
        cases session
        rfl
      exact ⟨.ok (), d.ended, by rw [same]; rfl⟩
  | some s => exact ⟨_, _, rfl⟩

/-- A new session asserts nothing. -/
theorem Vouched.close (vouched : Vouched sat ⟨d, fs⟩) (ended : List BitBlaster) :
    Vouched sat ⟨{ d with session := none, ended }, fs⟩ where
  ready := by
    obtain ⟨_, ready, _⟩ := vouched.ready
    exact ⟨[], ⟨ready.inProcess, Discharger.shaped_start sat _⟩, List.forall_mem_nil _⟩
  proper := vouched.proper
  names := vouched.names
  texts := vouched.texts

theorem Vouched.turn {p : Dialogue} (vouched : Vouched sat p) (t : Turn) :
    Vouched sat (p.turn t) := by
  cases t with
  | ask q => exact vouched.step q
  | close =>
      obtain ⟨r, ended, closed⟩ := perform_close p.discharger
      unfold Dialogue.turn
      rw [closed]
      exact Vouched.close vouched ended

theorem Vouched.start (sat : SatSolver) (config : SolverConfig) (ledger : Ledger) :
    Vouched sat (start sat config ledger) where
  ready := ⟨[], ⟨rfl, Discharger.shaped_start sat _⟩, List.forall_mem_nil _⟩
  proper := List.forall_mem_nil _
  names := rfl
  texts := List.forall_mem_nil _

theorem vouched_runTurns (sat : SatSolver) (config : SolverConfig) (ledger : Ledger)
    (ts : List Turn) : Vouched sat (runTurns sat config ledger ts) := by
  induction ts using List.reverseRecOn with
  | nil => exact .start sat config ledger
  | append_singleton ts t ih =>
      unfold runTurns
      rw [List.foldl_append]
      exact ih.turn t

/-- Every note that a turn adds to the ledger is a certificate, when failed assumptions are refuted
by the clauses: its core lists the texts of facts that were pushed before the turn, no
interpretation makes them all true together with its goal, and its lemma, the conjunction of exactly
those facts, entails that the goal fails. -/
theorem notes_certify (sat : SatSolver) (config : SolverConfig) (ledger : Ledger)
    (cores : sat.CoresRefute) (ts : List Turn) (t : Turn) :
    ∃ new : List Note,
      ((runTurns sat config ledger ts).turn t).discharger.ledger.notes =
          (runTurns sat config ledger ts).discharger.ledger.notes ++ new ∧
        ∀ note ∈ new, ∃ facts goal,
          note.Certifies (runTurns sat config ledger ts).pushed facts goal := by
  have vouched := vouched_runTurns sat config ledger ts
  cases t with
  | ask q => exact vouched.certified cores q
  | close =>
      obtain ⟨r, ended, closed⟩ := perform_close (runTurns sat config ledger ts).discharger
      unfold turn
      rw [closed]
      exact Certified.of_eq rfl

theorem runTurns_ask (sat : SatSolver) (config : SolverConfig) (ledger : Ledger)
    (qs : List Request) :
    runTurns sat config ledger (qs.map .ask) = run sat config ledger qs :=
  List.foldl_map

theorem turn_discharge (p : Dialogue) (cancelled : Bool) (o : Obligation) :
    (p.turn (.ask (.discharge cancelled o))).discharger =
      ((Discharger.discharge cancelled o).perform p.discharger).2 := rfl

/-- Since the handle is at most five, it is at most nine, and that is noted. -/
theorem noted_atMostNine :
    ∃ note violation d, (Discharger.discharge false ⟨.handle "img0", .range 0 9, .zero⟩).perform
        (run clauseLearning {} ⟨"", "", []⟩ atMostFive).discharger =
          (.ok (.proved, violation), d) ∧
      note.goal = ((Condition.range 0 9).failure (.symbol "img0")).render ∧
      d.ledger.notes = [note] := by
  obtain ⟨known, unnoted⟩ := known_atMostFive
  have sound := sound_run clauseLearning {} ⟨"", "", []⟩ atMostFive
  have wellFormed : ∀ q ∈ atMostFive, q.isWellFormed = true := by decide
  have plain := plain_run clauseLearning {} ⟨"", "", []⟩ wellFormed
  obtain ⟨outcome, violation, d, solved, proved, _, noted, _⟩ :=
    sound.discharge_handle clauseLearning_decides plain known (.range 0 9) .zero
  have holds : outcome = .proved := proved.mpr fun i holds =>
    ⟨UInt64.zero_le, UInt64.le_trans (holds_atMostFive holds) (by decide)⟩
  obtain ⟨note, goalText, appended⟩ := noted holds
  rw [holds] at solved
  refine ⟨note, violation, d, solved, goalText, ?_⟩
  rw [appended, Ledger.append, unnoted]
  rfl

/-- The note that the handle is at most nine has a core with at least one fact, for the goal alone
can hold. -/
theorem notes_certify_at_most_nine :
    ∃ note facts goal,
      ((runTurns clauseLearning {} ⟨"", "", []⟩ (atMostFive.map .ask)).turn
          (.ask (.discharge false ⟨.handle "img0", .range 0 9, .zero⟩))).discharger.ledger.notes =
        [note] ∧
      note.goal = "(or (< img0 0) (> img0 9))" ∧ note.core ≠ [] ∧
      note.Certifies (runTurns clauseLearning {} ⟨"", "", []⟩ (atMostFive.map .ask)).pushed
        facts goal := by
  obtain ⟨note, violation, d, solved, goalText, only⟩ := noted_atMostNine
  obtain ⟨new, notes, certified⟩ := notes_certify clauseLearning {} ⟨"", "", []⟩
    clauseLearning_decides.cores (atMostFive.map .ask)
    (.ask (.discharge false ⟨.handle "img0", .range 0 9, .zero⟩))
  rw [runTurns_ask] at notes certified ⊢
  have served : ((run clauseLearning {} ⟨"", "", []⟩ atMostFive).turn
      (.ask (.discharge false ⟨.handle "img0", .range 0 9, .zero⟩))).discharger = d := by
    rw [turn_discharge, solved]
  rw [served, known_atMostFive.2, List.nil_append, only] at notes
  obtain ⟨facts, goal, certifies⟩ := certified note (notes ▸ List.mem_cons_self)
  have plain : ((Condition.range 0 9).failure (.symbol "img0")).Plain :=
    Formula.plain_of_isWellFormed (Condition.isWellFormed_failure _ _) fun name h => by
      rw [Condition.symbols_failure _ h]
      decide
  have core := certifies.core_ne_nil plain goalText (i := ⟨fun _ => 10, fun _ _ => 0⟩) (by decide)
  exact ⟨note, facts, goal, by rw [served, only], goalText.trans (by decide), core, certifies⟩

end Dialogue

end ResourceSafety
