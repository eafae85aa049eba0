import ResourceSafety.Proofs.Logic.Meaning

/-!
# Requests to a session

A session is *faithful* to a log when what it has translated is in order and it asserts the log
(`BitBlaster.Faithful`).  A new session is faithful to the empty log.  Every request keeps a session
faithful: a fact that is accepted joins the log, and all other requests leave the log as it is,
those that are refused included.

A goal that gets a verdict was translated into a literal that expresses it.  The SAT solver was
asked about the literal (`BitBlaster.Answered`), and its answer says whether the goal can hold with
the log (`BitBlaster.Answered.settles`).
-/

namespace ResourceSafety.Logic.BitBlaster

open Logic.Action

variable {b c : BitBlaster} {sat : SatSolver} {log : List Entry} {f goal : Formula Term}

/-- The session is open and in order, and asserts the log. -/
structure Faithful (b : BitBlaster) (sat : SatSolver) (log : List Entry) : Prop where
  sound : b.Sound
  asserts : b.Asserts log
  opened : b.closed = false
  solver : b.sat = sat

theorem Sound.start (sat : SatSolver) (timeout : UInt32) : Sound { sat, timeout } where
  circuit := Circuit.sound_start
  names := List.forall_mem_nil _
  words := List.forall_mem_nil _
  functions := List.forall_mem_nil _
  arities := List.forall_mem_nil _
  terms := List.forall_mem_nil _
  keys := List.forall_mem_nil _
  results := List.forall_mem_nil _
  congruent _ _ := List.forall_mem_nil _

theorem Asserts.start (sat : SatSolver) (timeout : UInt32) : Asserts { sat, timeout } [] where
  facts := rfl
  guards := List.forall_mem_nil _
  apart := .nil
  plain := List.forall_mem_nil _
  requires := List.forall_mem_nil _
  allows _ _ :=
    ⟨fun _ => true, List.forall_mem_singleton.mpr rfl, ⟨nofun, List.forall_mem_nil _⟩,
      List.forall_mem_nil _⟩

namespace Faithful

theorem start (sat : SatSolver) (timeout : UInt32) : Faithful { sat, timeout } sat [] :=
  ⟨.start sat timeout, .start sat timeout, rfl, rfl⟩

/-- Declarations, goals and refused formulas leave the log as it is. -/
theorem grows (h : b.Faithful sat log) (sound : c.Sound) (grows : b.Grows c) :
    c.Faithful sat log :=
  ⟨sound, h.asserts.grows h.sound grows, grows.closed.trans h.opened, grows.sat.trans h.solver⟩

theorem declareConstant (h : b.Faithful sat log) {name : String} (proper : isName name = true) :
    ((declareConstant name).perform b).2.Faithful sat log := by
  obtain ⟨sound, grows⟩ := declareConstant_spec h.sound h.opened proper
  exact h.grows sound grows

theorem declareFunction (h : b.Faithful sat log) {name : String} {arity : Nat}
    (proper : isName name = true) (positive : 0 < arity) :
    ((declareFunction name arity).perform b).2.Faithful sat log := by
  obtain ⟨sound, grows⟩ := declareFunction_spec h.sound h.opened proper positive
  exact h.grows sound grows

/-! ## Facts -/

/-- What a fact comes to.  It is refused, or it is understood and joins the log. -/
inductive Asserted (b : BitBlaster) (sat : SatSolver) (log : List Entry) (name : String)
    (f : Formula Term) : Except Fault Unit × BitBlaster → Prop
  | refused {fault : Fault} {c : BitBlaster} (faithful : c.Faithful sat log)
      (same : b.SameNames c) : Asserted b sat log name f (.error fault, c)
  | accepted {fact : Option NamedFact} {c : BitBlaster}
      (named : fact.map (·.name) = if name = "" then none else some name)
      (faithful : c.Faithful sat (log ++ [(fact, f)])) (same : b.SameNames c)
      (known : ∀ t ∈ f.leaves, t.reading.Plain ∧ ∃ w, c.word? t.reading = some w) :
      Asserted b sat log name f (.ok (), c)

theorem asserted (h : b.Faithful sat log) (name : String) (f : Formula Term) :
    Asserted b sat log name f ((assert name f).perform b) := by
  obtain ⟨sound, grows, same, expressed⟩ := runs_formula f h.sound
  rw [perform_assert h.opened]
  rcases translated : (formula f).perform b with ⟨fault | l, c⟩
  · rw [translated] at sound grows same
    exact .refused (h.grows sound grows) same
  · rw [translated] at sound grows same expressed
    have expresses := expressed l rfl
    obtain ⟨_, asserts, opened, solver⟩ := h.grows sound grows
    dsimp only
    split
    next unnamed =>
      obtain ⟨sound', asserts'⟩ := asserts.claimed sound expresses
      refine .accepted (if_pos unnamed).symm ⟨sound', asserts', opened, solver⟩
        ⟨same.constants, same.functions⟩ fun t ht => (expresses.terms t ht).imp_right ?_
      exact fun ⟨w, word⟩ => ⟨w, (word?_withCircuit rfl _).trans word⟩
    next named =>
      obtain ⟨sound', asserts'⟩ := asserts.withFact sound expresses name
      refine .accepted (if_neg named).symm ⟨sound', asserts', opened, solver⟩
        ⟨same.constants, same.functions⟩ fun t ht => (expresses.terms t ht).imp_right ?_
      exact fun ⟨w, word⟩ => ⟨w, (word?_withCircuit (b := c) rfl _).trans word⟩

end Faithful

/-! ## Goals -/

/-- A goal got its verdict: it was translated into a literal, and the SAT solver was asked about
it. -/
structure Answered (b : BitBlaster) (goal : Formula Term) (l : Literal) (v : Verdict)
    (c : BitBlaster) : Prop where
  sound : c.Sound
  grows : b.Grows c
  same : b.SameNames c
  expresses : c.Expresses l goal
  verdict : v = (c.guarded l).verdict ((c.guarded l).ask c.nextGuard)

/-- A goal makes a session grow, whatever comes of it. -/
theorem runs_check (sound : b.Sound) (opened : b.closed = false) (cancelled : Bool)
    (goal : Formula Term) :
    b.Runs (check cancelled goal) fun v b' =>
      ∃ l c, b.Answered goal l v c ∧ b' = c.retired l := by
  cases cancelled with
  | true =>
      unfold Runs
      rw [perform_check_cancelled opened]
      exact ⟨sound, .refl b, ⟨rfl, rfl⟩, nofun⟩
  | false =>
      obtain ⟨sound', grows, same, expressed⟩ := runs_formula goal sound
      unfold Runs
      rw [perform_check opened]
      rcases translated : (formula goal).perform b with ⟨fault | l, c⟩
      · rw [translated] at sound' grows same
        exact ⟨sound', grows, same, nofun⟩
      · rw [translated] at sound' grows same expressed
        have expresses := expressed l rfl
        obtain ⟨sound'', grows'⟩ := grows_retired sound' expresses.var
        refine ⟨sound'', grows.trans grows', ⟨same.constants, same.functions⟩, fun v answer => ?_⟩
        exact ⟨l, c, ⟨sound', grows, same, expresses, (Except.ok.inj answer).symm⟩, rfl⟩

theorem Answered.known {l : Literal} {v : Verdict} (h : b.Answered goal l v c) :
    ∀ t ∈ goal.leaves, t.reading.Plain ∧ ∃ w, (c.retired l).word? t.reading = some w :=
  fun t ht => (h.expresses.terms t ht).imp_right fun ⟨w, word⟩ =>
    ⟨w, (word?_withCircuit rfl _).trans word⟩

/-- A verdict says whether the goal can hold with the log. -/
theorem Answered.settles {l : Literal} {v : Verdict} (h : b.Answered goal l v c)
    (faithful : b.Faithful sat log) (decides : sat.Decides) :
    v.Settles (Satisfiable ((log.map Prod.snd ++ [goal]).map Formula.reading)) := by
  have later := faithful.grows h.sound h.grows
  rw [h.verdict]
  exact later.asserts.settles h.sound h.expresses (later.solver ▸ decides)

end ResourceSafety.Logic.BitBlaster
