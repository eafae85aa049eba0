import Mathlib.Data.List.Nodup
import ResourceSafety.Proofs.Logic.ClauseLearning
import ResourceSafety.Proofs.Logic.Declarations
import ResourceSafety.Proofs.Logic.Translation

/-!
# Sessions decide what formulas mean

The *log* of a session lists the formulas that it has accepted, each with its fact if it has a name.
A session *asserts* its log (`BitBlaster.Asserts`) when

* its circuit admits the unnamed formulas to hold, and those that are named wherever their guards
  are true, and
* it admits nothing less: every interpretation in which the unnamed formulas hold agrees with an
  admitted valuation, with each guard true exactly where its formula holds.

Goals and refused formulas do not change that.  Their gates, words and congruences exclude no
interpretation, and the guard of a goal can be false afterwards (`BitBlaster.grows_retired`).

From a valuation of the circuit, tables of functions can be read off the applications
(`BitBlaster.interpretation`).  So a valuation that the SAT solver returns gives an interpretation
in which the log and the goal hold (`BitBlaster.Asserts.exists_interpretation`), and failed
assumptions tell which formulas the goal does not hold with (`BitBlaster.Asserts.refutes`).
-/

namespace ResourceSafety.Logic

/-- Some interpretation makes all the formulas true. -/
def Satisfiable (fs : List (Formula Term)) : Prop :=
  ∃ i : Interpretation, ∀ f ∈ fs, f.holdsIn i = true

/-- The verdict says whether something is the case. -/
def Verdict.Settles (P : Prop) : Verdict → Prop
  | .sat _ => P
  | .unsat _ => ¬P
  | .unknown _ => False

namespace BitBlaster

open Circuit (Always)
open Logic.Action

variable {b b' : BitBlaster} {i : Interpretation} {v : Valuation} {l : Literal}
  {f goal : Formula Term}

/-! ## Guards -/

/-- The next guard. -/
def nextGuard (b : BitBlaster) : Literal := .positive (b.circuit.nextVar + 1)

/-- The session with a literal that holds under the next guard. -/
def guarded (b : BitBlaster) (l : Literal) : BitBlaster :=
  { b with circuit := ((Circuit.clause [b.nextGuard.negation, l]).run
      { b.circuit with nextVar := b.circuit.nextVar + 1 }).2 }

/-- The session after a goal with a literal: its guard is false. -/
def retired (b : BitBlaster) (l : Literal) : BitBlaster :=
  { b with circuit := ((Circuit.clause [b.nextGuard.negation]).run (b.guarded l).circuit).2 }

/-- What a guard does. -/
structure Guards (b : BitBlaster) (l : Literal) : Prop where
  sound : (b.guarded l).Sound
  more : b.circuit.Extends Always (b.guarded l).circuit
  nextVar : (b.guarded l).circuit.nextVar = b.circuit.nextVar + 1
  used : b.nextGuard.var ≤ (b.guarded l).circuit.maxVar
  implies : ∀ v, (b.guarded l).circuit.Admits v → b.nextGuard.holds v = true → l.holds v = true
  chooses : ∀ v x, b.circuit.Admits v → (x = true → l.holds v = true) →
    ∃ u, AgreeUpTo b.circuit.nextVar v u ∧ (b.guarded l).circuit.Admits u ∧
      b.nextGuard.holds u = x

theorem Sound.guards (sound : b.Sound) (hl : l.var ≤ b.circuit.nextVar) : b.Guards l := by
  have lt := Nat.lt_succ_self b.circuit.nextVar
  have vars : ∀ m ∈ [b.nextGuard.negation, l], m.var ≤ b.circuit.nextVar + 1 :=
    List.forall_mem_cons.mpr ⟨Nat.le_refl _,
      List.forall_mem_singleton.mpr (Nat.le_trans hl (Nat.le_of_lt lt))⟩
  have holds_iff (v : Valuation) : Clause.holds v [b.nextGuard.negation, l] = true ↔
      (b.nextGuard.holds v = true → l.holds v = true) := by
    rw [Clause.holds, List.any_cons, List.any_cons, List.any_nil, Bool.or_false,
      Literal.holds_negation]
    cases b.nextGuard.holds v <;> simp
  obtain ⟨circuit, more, nextVar⟩ := Circuit.builds_clause (sound.circuit.addVars 1) vars
  have chooses : ∀ v x, b.circuit.Admits v → (x = true → l.holds v = true) →
      ∃ u, AgreeUpTo b.circuit.nextVar v u ∧ (b.guarded l).circuit.Admits u ∧
        b.nextGuard.holds u = x := by
    intro v x hv implies
    have agree := Circuit.agreeUpTo_withValue lt v x
    have worth : b.nextGuard.holds (v.withValue (b.circuit.nextVar + 1) x) = x := by
      rw [nextGuard, Literal.holds_positive, Circuit.withValue_self]
    obtain ⟨u, agree', hu⟩ := more.carries _
      (sound.circuit.admits_of_agree sound.circuit.used agree hv) ((holds_iff _).mpr fun isTrue => by
        rw [← agree.holds_eq hl]
        exact implies (worth.symm.trans isTrue))
    refine ⟨u, agree.trans agree' (Nat.le_of_lt lt), hu, ?_⟩
    rw [← agree'.holds_eq (Nat.le_refl _), worth]
  have always : b.circuit.Extends Always (b.guarded l).circuit := {
    truth := more.truth
    nextVar := Nat.le_trans (Nat.le_of_lt lt) more.nextVar
    maxVar := more.maxVar
    requires := fun v hv => ⟨more.admits hv, trivial⟩
    carries := fun v hv _ =>
      (chooses v false hv (nomatch ·)).imp fun _ h => ⟨h.1, h.2.1⟩ }
  exact ⟨sound.withCircuit circuit always, always, nextVar,
    circuit.bounded _ List.mem_cons_self b.nextGuard.negation List.mem_cons_self,
    fun v hv => (holds_iff v).mp (more.requires v hv).2, chooses⟩

/-- A goal that was decided excludes nothing. -/
theorem grows_retired (sound : b.Sound) (hl : l.var ≤ b.circuit.nextVar) :
    (b.retired l).Sound ∧ b.Grows (b.retired l) := by
  have guards := sound.guards hl
  have vars : ∀ m ∈ [b.nextGuard.negation], m.var ≤ (b.guarded l).circuit.nextVar :=
    List.forall_mem_singleton.mpr (Nat.le_of_eq guards.nextVar.symm)
  obtain ⟨circuit, more, _⟩ := Circuit.builds_clause guards.sound.circuit vars
  have always : b.circuit.Extends Always (b.retired l).circuit := {
    truth := more.truth.trans guards.more.truth
    nextVar := Nat.le_trans guards.more.nextVar more.nextVar
    maxVar := Nat.le_trans guards.more.maxVar more.maxVar
    requires := fun v hv => ⟨guards.more.admits (more.admits hv), trivial⟩
    carries := fun v hv _ => by
      obtain ⟨u, agree, hu, isFalse⟩ := guards.chooses v false hv (nomatch ·)
      obtain ⟨w, agree', hw⟩ := more.carries u hu (by
        rw [Clause.holds, List.any_cons, Literal.holds_negation, isFalse]
        rfl)
      exact ⟨w, agree.trans agree' guards.more.nextVar, hw⟩ }
  exact ⟨sound.withCircuit circuit always, sound.grows_build always⟩

/-! ## Requests -/

theorem perform_check_cancelled (opened : b.closed = false) (goal : Formula Term) :
    (check true goal).perform b = (.error .cancelled, b) := by
  unfold check
  rw [perform_bind_ok (perform_requireOpen opened)]
  rfl

theorem perform_check (opened : b.closed = false) (goal : Formula Term) :
    (check false goal).perform b =
      match (formula goal).perform b with
      | (.error fault, c) => (.error fault, c)
      | (.ok l, c) =>
        (.ok ((c.guarded l).verdict ((c.guarded l).ask c.nextGuard)), c.retired l) := by
  unfold check
  rw [perform_bind_ok (perform_requireOpen opened)]
  simp only [Bool.false_eq_true, if_false]
  rcases translated : (formula goal).perform b with ⟨fault | l, c⟩
  · rw [perform_bind_error translated]
  · rw [perform_bind_ok translated]
    rfl

/-- The session with a literal that holds. -/
def claimed (b : BitBlaster) (l : Literal) : BitBlaster :=
  { b with circuit := ((Circuit.clause [l]).run b.circuit).2 }

/-- The session with a fact. -/
def withFact (b : BitBlaster) (name : String) (l : Literal) : BitBlaster :=
  { b.guarded l with facts := b.facts ++ [⟨name, b.nextGuard⟩] }

theorem perform_assert (opened : b.closed = false) (name : String) (f : Formula Term) :
    (assert name f).perform b =
      match (formula f).perform b with
      | (.error fault, c) => (.error fault, c)
      | (.ok l, c) => (.ok (), if name = "" then c.claimed l else c.withFact name l) := by
  unfold assert
  rw [perform_bind_ok (perform_requireOpen opened)]
  rcases translated : (formula f).perform b with ⟨fault | l, c⟩
  · rw [perform_bind_error translated]
  · rw [perform_bind_ok translated]
    by_cases unnamed : name = ""
    · subst unnamed
      rfl
    · dsimp only
      rw [if_neg (by simpa using unnamed), if_neg unnamed]
      rfl

/-! ## Logs -/

/-- An accepted formula, with its fact if it has a name. -/
abbrev Entry := Option NamedFact × Formula Term

/-- The session holds what its log says, and nothing else. -/
structure Asserts (b : BitBlaster) (log : List Entry) : Prop where
  facts : b.facts = log.filterMap Prod.fst
  guards : ∀ fact ∈ b.facts, fact.guard.var ≤ b.circuit.maxVar
  apart : (b.facts.map (·.guard.var)).Nodup
  plain : ∀ e ∈ log, e.2.reading.Plain
  requires : ∀ e ∈ log, ∀ i v, b.circuit.Admits v → b.Agrees i v →
    (∀ fact ∈ e.1, fact.guard.holds v = true) → e.2.reading.holdsIn i = true
  allows : ∀ i, (∀ e ∈ log, e.1 = none → e.2.reading.holdsIn i = true) →
    ∃ v, b.circuit.Admits v ∧ b.Agrees i v ∧
      ∀ e ∈ log, ∀ fact ∈ e.1, fact.guard.holds v = e.2.reading.holdsIn i

variable {log : List Entry}

theorem Asserts.mem_facts (asserts : b.Asserts log) {e : Entry} (he : e ∈ log) {fact : NamedFact}
    (h : fact ∈ e.1) : fact ∈ b.facts := by
  rw [asserts.facts]
  exact List.mem_filterMap.mpr ⟨e, he, h⟩

theorem Asserts.grows (asserts : b.Asserts log) (sound : b.Sound) (grows : b.Grows b') :
    b'.Asserts log where
  facts := grows.facts.trans asserts.facts
  guards fact hf := Nat.le_trans (asserts.guards fact (grows.facts ▸ hf)) grows.maxVar
  apart := grows.facts ▸ asserts.apart
  plain := asserts.plain
  requires e he i v hv agrees := asserts.requires e he i v (grows.admits v hv) (agrees.grows grows)
  allows i holds := by
    obtain ⟨v, hv, agrees, worth⟩ := asserts.allows i holds
    obtain ⟨u, agree, hu, agrees'⟩ := grows.carries i v hv agrees
    refine ⟨u, hu, agrees', fun e he fact hf => ?_⟩
    have used := Nat.le_trans (asserts.guards fact (asserts.mem_facts he hf)) sound.circuit.used
    rw [← agree.holds_eq used]
    exact worth e he fact hf

/-- A formula without a name that was accepted. -/
theorem Asserts.claimed (asserts : b.Asserts log) (sound : b.Sound) (expresses : b.Expresses l f) :
    (b.claimed l).Sound ∧ (b.claimed l).Asserts (log ++ [(none, f)]) := by
  obtain ⟨circuit, more, _⟩ := Circuit.builds_clause sound.circuit
    (List.forall_mem_singleton.mpr expresses.var)
  have holds_iff (v : Valuation) : Clause.holds v [l] = true ↔ l.holds v = true := by
    rw [Clause.holds, List.any_cons, List.any_nil, Bool.or_false]
  refine ⟨sound.withCircuit circuit more, ?_, ?_, asserts.apart, ?_, ?_, fun i holds => ?_⟩
  · rw [List.filterMap_append, ← asserts.facts]
    exact (List.append_nil _).symm
  · exact fun fact hf => Nat.le_trans (asserts.guards fact hf) more.maxVar
  · exact List.forall_mem_append.mpr ⟨asserts.plain, List.forall_mem_singleton.mpr
      (Formula.plain_reading fun t ht => (expresses.terms t ht).1)⟩
  · refine List.forall_mem_append.mpr ⟨fun e he i v hv agrees => ?_,
      List.forall_mem_singleton.mpr fun i v hv agrees _ => ?_⟩
    · exact asserts.requires e he i v (more.admits hv) ⟨agrees.constants, agrees.applications⟩
    · rw [← expresses.holds i v (more.admits hv) ⟨agrees.constants, agrees.applications⟩]
      exact (holds_iff v).mp (more.requires v hv).2
  · obtain ⟨before, last⟩ := List.forall_mem_append.mp holds
    obtain ⟨v, hv, agrees, worth⟩ := asserts.allows i before
    have isTrue : l.holds v = true := by
      rw [expresses.holds i v hv agrees]
      exact last _ List.mem_cons_self rfl
    obtain ⟨u, agree, hu⟩ := more.carries v hv ((holds_iff v).mpr isTrue)
    have agrees' := sound.agrees_congr agree agrees
    refine ⟨u, hu, ⟨agrees'.constants, agrees'.applications⟩, ?_⟩
    refine List.forall_mem_append.mpr ⟨fun e he fact hf => ?_,
      List.forall_mem_singleton.mpr fun _ h => nomatch h⟩
    have used := Nat.le_trans (asserts.guards fact (asserts.mem_facts he hf)) sound.circuit.used
    rw [← agree.holds_eq used]
    exact worth e he fact hf

theorem Sound.withFacts (sound : b.Sound) (facts : List NamedFact) : Sound { b with facts } where
  circuit := sound.circuit
  names := sound.names
  words := sound.words
  functions := sound.functions
  arities := sound.arities
  terms a ha := (sound.terms a ha).imp fun _ stands => ⟨stands.plain, stands.key, stands.args⟩
  keys := sound.keys
  results := sound.results
  congruent := sound.congruent

/-- A fact that was accepted. -/
theorem Asserts.withFact (asserts : b.Asserts log) (sound : b.Sound) (expresses : b.Expresses l f)
    (name : String) :
    (b.withFact name l).Sound ∧
      (b.withFact name l).Asserts (log ++ [(some ⟨name, b.nextGuard⟩, f)]) := by
  have guards := sound.guards expresses.var
  have used {fact : NamedFact} (hf : fact ∈ b.facts) : fact.guard.var ≤ b.circuit.nextVar :=
    Nat.le_trans (asserts.guards fact hf) sound.circuit.used
  refine ⟨guards.sound.withFacts _, ?_, ?_, ?_, ?_, ?_, fun i holds => ?_⟩
  · rw [List.filterMap_append, ← asserts.facts]
    rfl
  · refine List.forall_mem_append.mpr ⟨fun fact hf => ?_, List.forall_mem_singleton.mpr guards.used⟩
    exact Nat.le_trans (asserts.guards fact hf) guards.more.maxVar
  · show ((b.facts ++ [_]).map _).Nodup
    rw [List.map_append, List.nodup_append]
    refine ⟨asserts.apart, List.nodup_singleton _, fun x hx y hy => ?_⟩
    obtain ⟨fact, hf, rfl⟩ := List.mem_map.mp hx
    rw [List.mem_singleton.mp hy]
    exact Nat.ne_of_lt (Nat.lt_succ_of_le (used hf))
  · exact List.forall_mem_append.mpr ⟨asserts.plain, List.forall_mem_singleton.mpr
      (Formula.plain_reading fun t ht => (expresses.terms t ht).1)⟩
  · refine List.forall_mem_append.mpr ⟨fun e he i v hv agrees => ?_,
      List.forall_mem_singleton.mpr fun i v hv agrees isTrue => ?_⟩
    · exact asserts.requires e he i v (guards.more.admits hv)
        ⟨agrees.constants, agrees.applications⟩
    · rw [← expresses.holds i v (guards.more.admits hv) ⟨agrees.constants, agrees.applications⟩]
      exact guards.implies v hv (isTrue _ rfl)
  · obtain ⟨before, _⟩ := List.forall_mem_append.mp holds
    obtain ⟨v, hv, agrees, worth⟩ := asserts.allows i before
    obtain ⟨u, agree, hu, guard⟩ := guards.chooses v (f.reading.holdsIn i) hv fun isTrue => by
      rw [expresses.holds i v hv agrees, isTrue]
    have agrees' := sound.agrees_congr agree agrees
    refine ⟨u, hu, ⟨agrees'.constants, agrees'.applications⟩, ?_⟩
    refine List.forall_mem_append.mpr ⟨fun e he fact hf => ?_,
      List.forall_mem_singleton.mpr fun fact h => ?_⟩
    · rw [← agree.holds_eq (used (asserts.mem_facts he hf))]
      exact worth e he fact hf
    · cases h
      exact guard

/-! ## Verdicts -/

open scoped Classical in
/-- The interpretation read off the words: a function has the values of its applications. -/
noncomputable def interpretation (b : BitBlaster) (v : Valuation) : Interpretation where
  symbol name := ((b.constants.lookup name).map (Bits.value v)).getD 0
  function f values :=
    if h : ∃ a ∈ b.applications, a.function = f ∧ a.args.map (Bits.value v) = values then
      h.choose.result.value v
    else 0

theorem agrees_interpretation (congruent : b.Congruent v) : b.Agrees (b.interpretation v) v where
  constants name w h := by
    simp only [interpretation, h]
    rfl
  applications a ha := by
    have h : ∃ o ∈ b.applications, o.function = a.function ∧
        o.args.map (Bits.value v) = a.args.map (Bits.value v) := ⟨a, ha, rfl, rfl⟩
    obtain ⟨member, function, args⟩ := h.choose_spec
    simp only [interpretation]
    rw [dif_pos h]
    exact (congruent _ member a ha function args).symm

/-- The literals that are assumed for a goal. -/
theorem ask_eq (b : BitBlaster) (l : Literal) :
    ∃ limit, (b.guarded l).ask b.nextGuard = b.sat.solve limit (b.guarded l).circuit.clauses
      (b.facts.map (·.guard) ++ [b.nextGuard]) := ⟨_, rfl⟩

/-- When the SAT solver returns values, all formulas and the goal hold in the interpretation that
has them. -/
theorem Asserts.exists_interpretation (asserts : b.Asserts log) (sound : b.Sound)
    (expresses : b.Expresses l goal) (models : b.sat.ModelsHold)
    (answer : (b.guarded l).ask b.nextGuard = .satisfiable v) :
    ∃ i : Interpretation, (b.guarded l).circuit.Admits v ∧
      (b.guarded l).Agrees i ((b.guarded l).circuit.settled v) ∧
      (∀ e ∈ log, e.2.reading.holdsIn i = true) ∧ goal.reading.holdsIn i = true := by
  have guards := sound.guards expresses.var
  obtain ⟨limit, asked⟩ := ask_eq b l
  obtain ⟨admits, assumed⟩ := models _ _ _ _ (asked.symm.trans answer)
  obtain ⟨facts, goalHolds⟩ := List.forall_mem_append.mp assumed
  have settled := Circuit.admits_settled guards.sound.circuit admits
  have agrees := agrees_interpretation (guards.sound.congruent _ settled)
  have same := (b.guarded l).circuit.agreeUpTo_settled v
  have before := guards.more.admits settled
  refine ⟨_, admits, agrees, fun e he => ?_, ?_⟩
  · refine asserts.requires e he _ _ before ⟨agrees.constants, agrees.applications⟩
      fun fact hf => ?_
    have mem := asserts.mem_facts he hf
    rw [← same.holds_eq (Nat.le_trans (asserts.guards fact mem) guards.more.maxVar)]
    exact facts _ (List.mem_map_of_mem mem)
  · rw [← expresses.holds _ _ before ⟨agrees.constants, agrees.applications⟩]
    refine guards.implies _ settled ?_
    rw [← same.holds_eq guards.used]
    exact goalHolds _ List.mem_cons_self

/-- Where the unnamed formulas hold and those with a failed guard, the goal does not. -/
theorem Asserts.refutes (asserts : b.Asserts log) (sound : b.Sound)
    (expresses : b.Expresses l goal) (cores : b.sat.CoresRefute) {failed : List Literal}
    (answer : (b.guarded l).ask b.nextGuard = .unsatisfiable failed)
    (unnamed : ∀ e ∈ log, e.1 = none → e.2.reading.holdsIn i = true)
    (blamed : ∀ e ∈ log, ∀ fact ∈ e.1, fact.guard ∈ failed → e.2.reading.holdsIn i = true) :
    ¬goal.reading.holdsIn i = true := by
  intro goalHolds
  have guards := sound.guards expresses.var
  obtain ⟨limit, asked⟩ := ask_eq b l
  obtain ⟨assumed, refuted⟩ := cores _ _ _ _ (asked.symm.trans answer)
  obtain ⟨v, hv, agrees, worth⟩ := asserts.allows i unnamed
  obtain ⟨u, agree, hu, guard⟩ := guards.chooses v true hv fun _ => by
    rw [expresses.holds i v hv agrees, goalHolds]
  refine refuted u hu fun m hm => ?_
  obtain guard' | guard' := List.mem_append.mp (assumed m hm)
  · obtain ⟨fact, hf, rfl⟩ := List.mem_map.mp guard'
    obtain ⟨e, he, named⟩ := List.mem_filterMap.mp (asserts.facts ▸ hf)
    have used := Nat.le_trans (asserts.guards fact hf) sound.circuit.used
    rw [← agree.holds_eq used, worth e he fact named]
    exact blamed e he fact named hm
  · rw [List.mem_singleton.mp guard']
    exact guard

/-- A verdict says whether the goal can hold with all formulas. -/
theorem Asserts.settles (asserts : b.Asserts log) (sound : b.Sound)
    (expresses : b.Expresses l goal) (decides : b.sat.Decides) :
    ((b.guarded l).verdict ((b.guarded l).ask b.nextGuard)).Settles
      (Satisfiable ((log.map Prod.snd ++ [goal]).map Formula.reading)) := by
  have all (i : Interpretation) :
      (∀ f ∈ (log.map Prod.snd ++ [goal]).map Formula.reading, f.holdsIn i = true) ↔
        (∀ e ∈ log, e.2.reading.holdsIn i = true) ∧ goal.reading.holdsIn i = true := by
    simp only [List.forall_mem_map, List.forall_mem_append, List.forall_mem_singleton]
  rcases answer : (b.guarded l).ask b.nextGuard with v | failed | _
  · obtain ⟨i, _, _, holds⟩ := asserts.exists_interpretation sound expresses decides.models answer
    exact ⟨i, (all i).mpr holds⟩
  · rintro ⟨i, holds⟩
    obtain ⟨facts, goalHolds⟩ := (all i).mp holds
    exact asserts.refutes sound expresses decides.cores answer (fun e he _ => facts e he)
      (fun e he _ _ _ => facts e he) goalHolds
  · obtain ⟨limit, asked⟩ := ask_eq b l
    exact decides.answers _ _ _ (asked.symm.trans answer)

end BitBlaster

end ResourceSafety.Logic
