import ResourceSafety.Proofs.Discharge.Dialogue

/-!
# Verdicts on handles

An obligation is decided by its refutation, the goal that its condition fails.  So it is
proved exactly when no interpretation in which the facts hold makes the goal hold
(`Dialogue.Sound.exists_verdict`).

For an obligation on a handle that is what the obligation says: its condition holds of the
value of the handle wherever the facts hold (`Dialogue.discharge_handle_iff`).  That covers
facts that contradict each other, where everything is proved, and empty ranges, where
nothing else is.
-/

namespace ResourceSafety

open Logic (BitBlaster Formula Interpretation SatSolver Satisfiable Term Verdict clauseLearning
  clauseLearning_decides)

/-! ## What a condition says -/

namespace Condition

/-- The condition holds of a value. -/
def Holds (i : Interpretation) (x : UInt64) : Condition → Prop
  | range lo hi => lo ≤ x ∧ x ≤ hi
  | shape dims => ∀ (k : Nat) (_ : k < dims.length),
      i.function shapeFunction [x, .ofNat k] = dims[k]

theorem holdsIn_failure_range (i : Interpretation) (t : Term) (lo hi : UInt64) :
    ((range lo hi).failure t).holdsIn i = true ↔ ¬(lo ≤ t.value i ∧ t.value i ≤ hi) := by
  have lt_iff (a b : Nat) : Logic.Comparison.lt.holds a b = true ↔ a < b := decide_eq_true_iff
  have gt_iff (a b : Nat) : Logic.Comparison.gt.holds a b = true ↔ b < a := decide_eq_true_iff
  simp only [failure, Formula.holdsIn, Formula.eval, Formula.evalAny, Bool.or_false,
    Bool.or_eq_true, lt_iff, gt_iff, Term.value, UInt64.le_iff_toNat_le]
  omega

/-- A dimension differs from what it should be. -/
theorem holdsIn_dimension_ne (i : Interpretation) (t : Term) (place : Nat) (dim : UInt64) :
    (Formula.compare .ne (dimensionOf t place) (.literal dim)).holdsIn i = true ↔
      i.function shapeFunction [t.value i, .ofNat place] ≠ dim := by
  have ne_iff (a b : Nat) : Logic.Comparison.ne.holds a b = true ↔ a ≠ b := bne_iff_ne
  simp only [dimensionOf, Formula.holdsIn, Formula.eval, ne_iff, Term.value, Term.valueList, ne_eq,
    UInt64.toNat_inj]

theorem holdsIn_failure_shape (i : Interpretation) (t : Term) (dims : List UInt64) :
    ((shape dims).failure t).holdsIn i = true ↔ ¬(shape dims).Holds i (t.value i) := by
  unfold failure Formula.holdsIn
  rw [Formula.eval_any_iff]
  simp only [List.mem_mapIdx, Holds, not_forall]
  constructor
  · rintro ⟨f, ⟨k, bound, rfl⟩, holds⟩
    exact ⟨k, bound, (holdsIn_dimension_ne i t k _).mp holds⟩
  · rintro ⟨k, bound, differs⟩
    exact ⟨_, ⟨k, bound, rfl⟩, (holdsIn_dimension_ne i t k _).mpr differs⟩

/-- The failure of a condition says that the condition does not hold. -/
theorem holdsIn_failure (c : Condition) (i : Interpretation) (t : Term) :
    (c.failure t).holdsIn i = true ↔ ¬c.Holds i (t.value i) := by
  cases c with
  | range lo hi => exact holdsIn_failure_range i t lo hi
  | shape dims => exact holdsIn_failure_shape i t dims

theorem isWellFormed_failure (c : Condition) (name : String) :
    (c.failure (.symbol name)).isWellFormed = true := by
  cases c with
  | range lo hi => rfl
  | shape dims =>
      rw [failure, Formula.isWellFormed, Formula.areWellFormed_iff]
      intro f hf
      obtain ⟨k, _, rfl⟩ := List.mem_mapIdx.mp hf
      rfl

theorem symbols_failure (c : Condition) {name other : String}
    (h : other ∈ (c.failure (.symbol name)).symbols) : other = name := by
  obtain ⟨t, ht, h⟩ := List.mem_flatMap.mp (List.mem_eraseDups.mp h)
  cases c with
  | range lo hi =>
      simp only [failure, Formula.leaves, Formula.leavesList, List.append_nil, List.cons_append,
        List.nil_append, List.mem_cons, List.not_mem_nil, or_false] at ht
      rcases ht with rfl | rfl | rfl | rfl
      · exact List.mem_singleton.mp h
      · exact absurd h List.not_mem_nil
      · exact List.mem_singleton.mp h
      · exact absurd h List.not_mem_nil
  | shape dims =>
      rw [failure, Formula.leaves, Formula.leavesList_eq] at ht
      obtain ⟨f, hf, ht⟩ := List.mem_flatMap.mp ht
      obtain ⟨k, _, rfl⟩ := List.mem_mapIdx.mp hf
      rcases List.mem_pair.mp ht with rfl | rfl
      · simpa [dimensionOf, Term.symbols, Term.symbolsList] using h
      · exact absurd h List.not_mem_nil

end Condition

theorem satisfiable_inForce_iff {facts : List (Formula Term)} {goal : Formula Term}
    (plain : ∀ f ∈ facts, f.Plain) :
    Satisfiable (inForce facts ++ [goal]) ↔ Satisfiable (facts ++ [goal]) := by
  refine exists_congr fun i => ?_
  rw [List.forall_mem_append, List.forall_mem_append, holds_inForce_iff plain i]

/-! ## Verdicts -/

namespace Discharger

/-- An obligation is proved when its goal cannot hold, and refuted when it can. -/
theorem conclude_settles (o : Obligation) (binding : String) {P : Prop} {v : Verdict}
    (settles : v.Settles P) :
    ((conclude o binding v).1 = .proved ↔ ¬P) ∧ ((conclude o binding v).1 = .refuted ↔ P) := by
  cases v with
  | sat model =>
      have holds : P := settles
      simp [conclude, holds]
  | unsat core =>
      have fails : ¬P := settles
      simp [conclude, fails]
  | unknown reason => exact settles.elim

/-- A violation is given for everything that is not proved. -/
theorem conclude_violation (o : Obligation) (binding : String) (v : Verdict) :
    (conclude o binding v).2.isSome = true ↔ (conclude o binding v).1 ≠ .proved := by
  cases v <;> simp [conclude]

/-- The ledger gets a note with the goal for everything that is proved, and nothing else. -/
theorem record_ledger (o : Obligation) (goal : Formula Term) (binding : String) (v : Verdict)
    (d : Discharger BitBlaster) :
    ((conclude o binding v).1 = .proved → ∃ note, note.goal = goal.render ∧
        (record o goal (conclude o binding v).1 v d).ledger = d.ledger.append note) ∧
      ((conclude o binding v).1 ≠ .proved →
        (record o goal (conclude o binding v).1 v d).ledger = d.ledger) := by
  cases v with
  | unsat core => exact ⟨fun _ => ⟨_, rfl, rfl⟩, fun other => absurd rfl other⟩
  | sat model => exact ⟨fun proved => (nomatch proved), fun _ => rfl⟩
  | unknown reason => exact ⟨fun proved => (nomatch proved), fun _ => rfl⟩

end Discharger

namespace Dialogue

variable {sat : SatSolver} {d e : Discharger BitBlaster} {facts : List (Formula Term)}

/-- An obligation whose goal speaks of declared symbols is always decided, and the verdict
says whether the goal holds with the facts. -/
theorem Sound.exists_verdict {o : Obligation} {goal : Formula Term} {binding : String}
    (sound : Sound sat ⟨d, facts⟩) (decides : sat.Decides) (plain : ∀ f ∈ facts, f.Plain)
    (refutation : (Discharger.refutation o).perform { d with session := some (d.current sat) } =
      (.ok (goal, binding), e))
    (kept : Discharger.Kept sat d e) (wellFormed : goal.isWellFormed = true)
    (declared : ∀ name ∈ goal.symbols, name ∈ (e.current sat).signature.constants) :
    ∃ v s, (Discharger.solve o).perform d =
        (.ok (Discharger.conclude o binding v),
          Discharger.record o goal (Discharger.conclude o binding v).1 v (e.asked s)) ∧
      v.Settles (Satisfiable (facts ++ [goal])) := by
  obtain ⟨log, ready, formulas⟩ := (sound.kept kept).ready
  have faithful := ready.shaped.faithful
  have plainGoal : goal.Plain := Formula.plain_of_isWellFormed wellFormed
    fun name hn => (ready.shaped.names (declared name hn)).1
  obtain ⟨l, c, translated⟩ := ready.shaped.exists_formula wellFormed declared
  obtain ⟨_, before, _⟩ := sound.ready
  have solved := Discharger.perform_solve before refutation
  obtain ⟨_, _, _, answer⟩ := BitBlaster.runs_check faithful.sound faithful.opened false goal
  rw [BitBlaster.perform_check faithful.opened, translated] at solved answer
  obtain ⟨l', c', answered, _⟩ := answer _ rfl
  have settles := answered.settles faithful decides
  rw [formulas, Formula.map_reading (List.forall_mem_append.mpr
    ⟨fun f hf => plain f (mem_of_mem_inForce hf), List.forall_mem_singleton.mpr plainGoal⟩),
    satisfiable_inForce_iff plain] at settles
  exact ⟨_, _, solved, settles⟩

/-! ## Well-formed dialogues -/

/-- A fact that is pushed is well formed. -/
def Request.isWellFormed : Request → Bool
  | .push _ fact => fact.isWellFormed
  | _ => true

theorem isWellFormed_dimensionFacts (symbol : String) (place : Nat) (dims : List UInt64) :
    ∀ f ∈ dimensionFacts symbol place dims, f.isWellFormed = true := by
  induction dims generalizing place with
  | nil => exact fun f hf => absurd hf List.not_mem_nil
  | cons dim dims ih => exact List.forall_mem_cons.mpr ⟨rfl, ih (place + 1)⟩

theorem isWellFormed_step {p : Dialogue} (each : ∀ f ∈ p.pushed, f.isWellFormed = true)
    {q : Request} (wellFormed : q.isWellFormed = true) :
    ∀ f ∈ (p.step q).pushed, f.isWellFormed = true := by
  cases q with
  | fresh cancelled text =>
      unfold step
      dsimp only
      split
      next => exact List.forall_mem_append.mpr ⟨each, List.forall_mem_singleton.mpr rfl⟩
      next => exact each
  | push cancelled fact =>
      unfold step
      dsimp only
      split
      next => exact List.forall_mem_append.mpr ⟨each, List.forall_mem_singleton.mpr wellFormed⟩
      next => exact each
  | assertShape cancelled symbol dims =>
      unfold step
      dsimp only
      split
      next => exact List.forall_mem_append.mpr ⟨each, isWellFormed_dimensionFacts symbol 0 dims⟩
      next => exact each
  | enqueue o | flush gaveUp | discharge cancelled o => exact each

/-- The facts of a dialogue are well formed if those that it pushes are. -/
theorem isWellFormed_run (sat : SatSolver) (config : SolverConfig) (ledger : Ledger)
    {qs : List Request} (wellFormed : ∀ q ∈ qs, q.isWellFormed = true) :
    ∀ f ∈ (run sat config ledger qs).pushed, f.isWellFormed = true := by
  induction qs using List.reverseRecOn with
  | nil => exact fun f hf => absurd hf List.not_mem_nil
  | append_singleton qs q ih =>
      obtain ⟨before, last⟩ := List.forall_mem_append.mp wellFormed
      rw [run_append]
      exact isWellFormed_step (ih before) (last q List.mem_cons_self)

/-- Well-formed facts about handles are plain, since handles have proper names. -/
theorem plain_run (sat : SatSolver) (config : SolverConfig) (ledger : Ledger) {qs : List Request}
    (wellFormed : ∀ q ∈ qs, q.isWellFormed = true) :
    ∀ f ∈ (run sat config ledger qs).pushed, f.Plain := by
  have each := isWellFormed_run sat config ledger wellFormed
  have sound := sound_run sat config ledger qs
  obtain ⟨_, ready, _⟩ := sound.ready
  exact fun f hf => Formula.plain_of_isWellFormed (each f hf) fun name hn =>
    (ready.shaped.names (sound.declared name (sound.speaks f hf name hn))).1

/-! ## Obligations on handles -/

theorem satisfiable_failure_iff {name : String} {c : Condition} :
    Satisfiable (facts ++ [c.failure (.symbol name)]) ↔
      ¬∀ i : Interpretation, (∀ f ∈ facts, f.holdsIn i = true) → c.Holds i (i.symbol name) := by
  simp only [Satisfiable, List.forall_mem_append, List.forall_mem_singleton, not_forall,
    c.holdsIn_failure, exists_prop, Term.value]

/-- An obligation on a known handle is always decided.  It is proved when its condition holds
of the handle wherever the facts hold, and refuted otherwise. -/
theorem Sound.discharge_handle {p : Dialogue} {name : String} (sound : Sound sat p)
    (decides : sat.Decides) (plain : ∀ f ∈ p.pushed, f.Plain)
    (known : name ∈ p.discharger.handles) (c : Condition) (span : Span) :
    ∃ outcome violation d,
      (Discharger.discharge false ⟨.handle name, c, span⟩).perform p.discharger =
        (.ok (outcome, violation), d) ∧
      (outcome = .proved ↔ ∀ i : Interpretation,
        (∀ f ∈ p.pushed, f.holdsIn i = true) → c.Holds i (i.symbol name)) ∧
      (outcome = .refuted ↔ ¬∀ i : Interpretation,
        (∀ f ∈ p.pushed, f.holdsIn i = true) → c.Holds i (i.symbol name)) ∧
      (outcome = .proved → ∃ note, note.goal = (c.failure (.symbol name)).render ∧
        d.ledger = p.discharger.ledger.append note) ∧
      (outcome ≠ .proved → d.ledger = p.discharger.ledger) ∧
      (violation.isSome = true ↔ outcome ≠ .proved) := by
  obtain ⟨d, facts⟩ := p
  have kept := Discharger.kept_ensure sat d
  obtain ⟨v, s, solved, settles⟩ := sound.exists_verdict (o := ⟨.handle name, c, span⟩) decides
    plain rfl kept (c.isWellFormed_failure name) fun other ho =>
      c.symbols_failure ho ▸ (sound.kept kept).declared name known
  have stated : d.refusal? ⟨.handle name, c, span⟩ = none :=
    if_pos (List.contains_iff_mem.mpr known)
  have discharged : (Discharger.discharge false ⟨.handle name, c, span⟩).perform d =
      (Discharger.solve ⟨.handle name, c, span⟩).perform d := by
    unfold Discharger.discharge
    rw [Logic.Action.perform_bind, Discharger.perform_requireStated, stated]
    rfl
  rw [satisfiable_failure_iff] at settles
  obtain ⟨proved, refuted⟩ := Discharger.conclude_settles ⟨.handle name, c, span⟩ name settles
  obtain ⟨noted, unnoted⟩ := Discharger.record_ledger ⟨.handle name, c, span⟩
    (c.failure (.symbol name)) name v
    (Discharger.asked { d with session := some (d.current sat) } s)
  exact ⟨_, _, _, discharged.trans solved, proved.trans not_not, refuted, noted, unnoted,
    Discharger.conclude_violation _ name v⟩

/-- In a session that asks a SAT solver that is right, an obligation on a known handle is always
decided.  It is proved when its condition holds of the handle wherever all the facts hold, and
refuted otherwise.  Proofs are noted in the ledger, and everything else is a violation. -/
theorem discharge_handle_iff (sat : SatSolver) (config : SolverConfig) (ledger : Ledger)
    (decides : sat.Decides) (qs : List Request) (wellFormed : ∀ q ∈ qs, q.isWellFormed = true)
    (name : String) (known : name ∈ (run sat config ledger qs).discharger.handles) (c : Condition)
    (span : Span) :
    let p := run sat config ledger qs
    ∃ outcome violation d,
      (Discharger.discharge false ⟨.handle name, c, span⟩).perform p.discharger =
        (.ok (outcome, violation), d) ∧
      (outcome = .proved ↔ ∀ i : Interpretation,
        (∀ f ∈ p.pushed, f.holdsIn i = true) → c.Holds i (i.symbol name)) ∧
      (outcome = .refuted ↔ ¬∀ i : Interpretation,
        (∀ f ∈ p.pushed, f.holdsIn i = true) → c.Holds i (i.symbol name)) ∧
      (outcome = .proved → ∃ note, d.ledger = p.discharger.ledger.append note) ∧
      (outcome ≠ .proved → d.ledger = p.discharger.ledger) ∧
      (violation.isSome = true ↔ outcome ≠ .proved) := by
  intro p
  have sound : Sound sat p := sound_run sat config ledger qs
  obtain ⟨outcome, violation, d, solved, proved, refuted, noted, rest⟩ :=
    sound.discharge_handle decides (plain_run sat config ledger wellFormed) known c span
  exact ⟨outcome, violation, d, solved, proved, refuted,
    fun holds => (noted holds).imp fun _ note => note.2, rest⟩

/-- A handle, with the fact that it is at most five. -/
def atMostFive : List Request :=
  [.fresh false "img"] ++ [.push false (.compare .le (.symbol "img0") (.literal 5))]

theorem pushed_atMostFive :
    (run clauseLearning {} ⟨"", "", []⟩ atMostFive).pushed =
      [Discharger.handleRange "img0", .compare .le (.symbol "img0") (.literal 5)] := by
  have sound := sound_run clauseLearning {} ⟨"", "", []⟩ [.fresh false "img"]
  have name : Discharger.symbolStem "img" ++ toString 0 = "img0" := by decide +kernel
  obtain ⟨range, handle⟩ := run_one_fresh clauseLearning {} ⟨"", "", []⟩ name
  have speaks : Discharger.SpeaksOf
      (run clauseLearning {} ⟨"", "", []⟩ [.fresh false "img"]).discharger
      (.compare .le (.symbol "img0") (.literal 5)) := by
    intro other h
    obtain rfl : other = "img0" := by simpa [Formula.symbols, Formula.leaves, Term.symbols] using h
    exact handle
  rw [atMostFive, run_append, sound.pushed_push false rfl speaks, range]
  rfl

theorem known_atMostFive :
    "img0" ∈ (run clauseLearning {} ⟨"", "", []⟩ atMostFive).discharger.handles ∧
      (run clauseLearning {} ⟨"", "", []⟩ atMostFive).discharger.ledger.notes = [] := by
  decide +kernel

/-- The facts bound the handle. -/
theorem holds_atMostFive {i : Interpretation}
    (holds : ∀ f ∈ (run clauseLearning {} ⟨"", "", []⟩ atMostFive).pushed, f.holdsIn i = true) :
    i.symbol "img0" ≤ 5 := by
  rw [pushed_atMostFive] at holds
  have bound : decide ((i.symbol "img0").toNat ≤ 5) = true := holds _ (.tail _ (.head _))
  exact UInt64.le_iff_toNat_le.mpr (of_decide_eq_true bound)

/-- The handle lies between zero and five, which is noted.  It need not be positive. -/
theorem discharge_handle_iff_five :
    (∃ note d, (Discharger.discharge false ⟨.handle "img0", .range 0 5, .zero⟩).perform
      (run clauseLearning {} ⟨"", "", []⟩ atMostFive).discharger = (.ok (.proved, none), d) ∧
        d.ledger.notes = [note]) ∧
      ∃ violation d, (Discharger.discharge false ⟨.handle "img0", .range 1 5, .zero⟩).perform
        (run clauseLearning {} ⟨"", "", []⟩ atMostFive).discharger =
          (.ok (.refuted, some violation), d) := by
  have wellFormed : ∀ q ∈ atMostFive, q.isWellFormed = true := by decide
  obtain ⟨known, unnoted⟩ := known_atMostFive
  constructor
  · obtain ⟨outcome, violation, d, solved, proved, _, noted, _, found⟩ :=
      discharge_handle_iff clauseLearning {} ⟨"", "", []⟩ clauseLearning_decides atMostFive
        wellFormed "img0" known (.range 0 5) .zero
    have holds : outcome = .proved :=
      proved.mpr fun i holds => ⟨UInt64.zero_le, holds_atMostFive holds⟩
    subst holds
    have clean : violation = none := Option.not_isSome_iff_eq_none.mp fun some => found.mp some rfl
    obtain ⟨note, appended⟩ := noted rfl
    rw [clean] at solved
    refine ⟨note, d, solved, ?_⟩
    rw [appended, Ledger.append, unnoted]
    rfl
  · obtain ⟨outcome, violation, d, solved, _, refuted, _, _, found⟩ :=
      discharge_handle_iff clauseLearning {} ⟨"", "", []⟩ clauseLearning_decides atMostFive
        wellFormed "img0" known (.range 1 5) .zero
    have fails : outcome = .refuted := refuted.mpr fun proved => by
      have zero := proved ⟨fun _ => 0, fun _ _ => 0⟩ (by rw [pushed_atMostFive]; decide)
      exact absurd zero.1 (by decide)
    subst fails
    obtain ⟨violation, rfl⟩ := Option.isSome_iff_exists.mp (found.mpr (by decide))
    exact ⟨violation, d, solved⟩

end Dialogue

end ResourceSafety
