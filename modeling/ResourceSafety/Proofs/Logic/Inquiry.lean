import Mathlib.Data.List.Induction
import ResourceSafety.Proofs.Logic.Requests

/-!
# Inquiries

An *inquiry* is a run of requests to a session: declarations, facts and goals, in any order, those
that are refused included.  Beside the session it keeps the facts that were asserted without a
fault.

The names of an inquiry are words that begin with a letter, and no name is both that of a symbol and
that of a function.  Terms of such names need not be plain, for a function may stand without its
arguments.  Its text is then that of a symbol, but never of one that is declared.  So a session that
accepts such a term has read it right (`BitBlaster.Sound.plain_of_known`).

Goals and refused formulas leave gates, words and congruences behind in the session.  They exclude
no interpretation (`BitBlaster.Faithful`), and hence the verdicts do not depend on them
(`Inquiry.check_decides`).
-/

namespace ResourceSafety.Logic

/-! ## Names of symbols and of functions -/

namespace Term

mutual

/-- A term of names.  `isFunction` says which of them are functions; the others are
symbols. -/
def isNamed (isFunction : String → Bool) : Term → Bool
  | .literal _ => true
  | .symbol name => isName name && !isFunction name
  | .apply f args => isName f && isFunction f && areNamed isFunction args

/-- Terms of names. -/
def areNamed (isFunction : String → Bool) : List Term → Bool
  | [] => true
  | t :: ts => isNamed isFunction t && areNamed isFunction ts

end

mutual

/-- The term with a symbol for every function that stands without arguments. -/
def flat : Term → Term
  | .literal n => .literal n
  | .symbol name => .symbol name
  | .apply f [] => .symbol f
  | .apply f (t :: ts) => .apply f (flat t :: flatList ts)

/-- The terms with such symbols. -/
def flatList : List Term → List Term
  | [] => []
  | t :: ts => flat t :: flatList ts

end

theorem flatList_eq (ts : List Term) : flatList ts = ts.map flat := by
  induction ts with
  | nil => rfl
  | cons t ts ih => rw [flatList, ih, List.map_cons]

theorem flat_apply {f : String} {args : List Term} (some : args ≠ []) :
    (Term.apply f args).flat = .apply f (args.map flat) := by
  cases args with
  | nil => exact absurd rfl some
  | cons t ts => rw [flat, flatList_eq, List.map_cons]

theorem render_flat (t : Term) : t.flat.render = t.render := by
  induction t using Term.induction with
  | literal n => rfl
  | symbol name => rfl
  | apply f args ih =>
      by_cases none : args = []
      · rw [none]
        rfl
      · rw [flat_apply none]
        refine render_apply_congr ?_
        rw [List.map_map]
        exact List.map_congr_left ih

variable {isFunction : String → Bool} {t : Term}

theorem areNamed_iff {ts : List Term} :
    areNamed isFunction ts = true ↔ ∀ t ∈ ts, t.isNamed isFunction = true := by
  induction ts with
  | nil => simp [areNamed]
  | cons t ts ih => simp [areNamed, ih]

theorem isNamed_apply {f : String} {args : List Term}
    (named : (Term.apply f args).isNamed isFunction = true) :
    isName f = true ∧ isFunction f = true ∧ ∀ t ∈ args, t.isNamed isFunction = true := by
  simp only [isNamed, Bool.and_eq_true] at named
  exact ⟨named.1.1, named.1.2, areNamed_iff.mp named.2⟩

theorem plain_symbol {name : String} (named : (Term.symbol name).isNamed isFunction = true) :
    (Term.symbol name).Plain := by
  simp only [isNamed, Bool.and_eq_true] at named
  exact .symbol named.1

theorem plain_flat (named : t.isNamed isFunction = true) : t.flat.Plain := by
  induction t using Term.induction with
  | literal n => exact .literal n
  | symbol name => exact plain_symbol named
  | apply f args ih =>
      obtain ⟨proper, _, each⟩ := isNamed_apply named
      by_cases none : args = []
      · rw [none]
        exact .symbol proper
      · rw [flat_apply none]
        refine .apply (isWord_of_isName proper) (by simpa using none) ?_
        exact List.forall_mem_map.mpr fun t ht => ih t ht (each t ht)

end Term

/-- The formula compares terms of names. -/
def Formula.isNamed (isFunction : String → Bool) (f : Formula Term) : Bool :=
  f.leaves.all (Term.isNamed isFunction)

/-! ## Formulas that were understood -/

namespace BitBlaster

variable {b : BitBlaster} {isFunction : String → Bool}

/-- The arguments of an application with a word have words. -/
theorem Sound.known_args (sound : b.Sound) {f : String} {args : List Term}
    (plain : (Term.apply f args).Plain) {w : Bits} (word : b.word? (.apply f args) = some w) :
    b.functions.lookup f = some args.length ∧ ∀ t ∈ args, ∃ x, b.word? t = some x := by
  obtain ⟨a, found, rfl⟩ := Option.map_eq_some_iff.mp word
  have ha := List.mem_of_find?_eq_some found
  obtain ⟨others, stands⟩ := sound.terms a ha
  have text := List.find?_some found
  obtain ⟨rfl, rfl⟩ := Term.apply.inj
    (Term.render_injective stands.plain plain (stands.key.symm.trans (beq_iff_eq.mp text)))
  have length := congrArg List.length stands.args
  rw [List.length_map, List.length_map] at length
  refine ⟨length ▸ sound.arities a ha, fun t ht => ?_⟩
  have listed : b.word? t ∈ a.args.map some := stands.args ▸ List.mem_map_of_mem ht
  obtain ⟨x, _, eq⟩ := List.mem_map.mp listed
  exact ⟨x, eq.symm⟩

/-- A session without functions among its symbols knows no function without arguments. -/
theorem Sound.plain_of_known (sound : b.Sound) (constants : ∀ c ∈ b.constants, isFunction c.1 = false)
    {t : Term} (named : t.isNamed isFunction = true) {w : Bits} (word : b.word? t.flat = some w) :
    t.Plain := by
  induction t using Term.induction generalizing w with
  | literal n => exact .literal n
  | symbol name => exact Term.plain_symbol named
  | apply f args ih =>
      obtain ⟨proper, function, each⟩ := Term.isNamed_apply named
      by_cases none : args = []
      · subst none
        obtain ⟨before, after, split, _⟩ := List.lookup_eq_some_iff.mp word
        have symbol := constants (f, w) (by simp [split])
        exact absurd function (by simp [symbol])
      · have plain := Term.plain_flat named
        rw [Term.flat_apply none] at word plain
        obtain ⟨_, known⟩ := sound.known_args plain word
        refine .apply (isWord_of_isName proper) none fun t ht => ?_
        obtain ⟨x, word⟩ := known t.flat (List.mem_map_of_mem ht)
        exact ih t ht (each t ht) word

/-- A formula of names that a session understands is plain. -/
theorem Sound.plain_of_understood (sound : b.Sound)
    (constants : ∀ c ∈ b.constants, isFunction c.1 = false) {f : Formula Term}
    (named : f.isNamed isFunction = true)
    (known : ∀ t ∈ f.leaves, t.reading.Plain ∧ ∃ w, b.word? t.reading = some w) : f.Plain := by
  intro t ht
  have named := List.all_eq_true.mp named t ht
  obtain ⟨_, w, word⟩ := known t ht
  -- a function without arguments would have the text of a symbol that is known
  rw [Term.reading_eq (Term.plain_flat named) t.render_flat] at word
  exact sound.plain_of_known constants named word

end BitBlaster

/-! ## Runs of requests -/

/-- A session and the facts that were asserted without a fault, oldest first. -/
structure Inquiry where
  session : BitBlaster
  asserted : List (Formula Term) := []

namespace Inquiry

open BitBlaster (Faithful)

/-- A request to a session. -/
inductive Request
  | constant (name : String)
  | function (name : String) (arity : Nat)
  | assert (name : String) (fact : Formula Term)
  | check (cancelled : Bool) (goal : Formula Term)

/-- The request keeps to the names of symbols and functions, and every function that it declares has
arguments. -/
def Request.isNamed (isFunction : String → Bool) : Request → Bool
  | .constant name => isName name && !isFunction name
  | .function name arity => isName name && isFunction name && decide (0 < arity)
  | .assert _ fact => fact.isNamed isFunction
  | .check _ goal => goal.isNamed isFunction

/-- The inquiry after one more request. -/
def step (p : Inquiry) : Request → Inquiry
  | .constant name => { p with session := ((BitBlaster.declareConstant name).perform p.session).2 }
  | .function name arity =>
    { p with session := ((BitBlaster.declareFunction name arity).perform p.session).2 }
  | .assert name fact =>
    match (BitBlaster.assert name fact).perform p.session with
    | (.ok _, s) => ⟨s, p.asserted ++ [fact]⟩
    | (.error _, s) => ⟨s, p.asserted⟩
  | .check cancelled goal =>
    { p with session := ((BitBlaster.check cancelled goal).perform p.session).2 }

/-- The inquiry with a new session, which asks a SAT solver and may have a time limit. -/
def run (sat : SatSolver) (timeout : UInt32) (qs : List Request) : Inquiry :=
  qs.foldl step { session := { sat, timeout } }

/-- What holds between requests. -/
structure Sound (isFunction : String → Bool) (sat : SatSolver) (p : Inquiry) : Prop where
  constants : ∀ c ∈ p.session.constants, isFunction c.1 = false
  faithful : ∃ log, p.session.Faithful sat log ∧ log.map Prod.snd = p.asserted
  plain : ∀ f ∈ p.asserted, f.Plain

variable {isFunction : String → Bool} {sat : SatSolver} {p : Inquiry} {s : BitBlaster}

theorem Sound.start (sat : SatSolver) (timeout : UInt32) :
    Sound isFunction sat { session := { sat, timeout } } where
  constants := List.forall_mem_nil _
  faithful := ⟨[], .start sat timeout, rfl⟩
  plain := List.forall_mem_nil _

theorem Sound.opened (sound : Sound isFunction sat p) : p.session.closed = false := by
  obtain ⟨_, faithful, _⟩ := sound.faithful
  exact faithful.opened

theorem Sound.constant (sound : Sound isFunction sat p) {name : String}
    (proper : isName name = true) (symbol : isFunction name = false) :
    Sound isFunction sat (p.step (.constant name)) where
  constants := by
    show ∀ c ∈ ((BitBlaster.declareConstant name).perform p.session).2.constants, _
    rw [BitBlaster.perform_declareConstant sound.opened]
    dsimp only
    split
    next => exact sound.constants
    next =>
      exact List.forall_mem_append.mpr ⟨sound.constants, List.forall_mem_singleton.mpr symbol⟩
  faithful := sound.faithful.imp fun _ h => ⟨h.1.declareConstant proper, h.2⟩
  plain := sound.plain

theorem Sound.function (sound : Sound isFunction sat p) {name : String} {arity : Nat}
    (proper : isName name = true) (positive : 0 < arity) :
    Sound isFunction sat (p.step (.function name arity)) where
  constants := by
    show ∀ c ∈ ((BitBlaster.declareFunction name arity).perform p.session).2.constants, _
    rw [BitBlaster.perform_declareFunction sound.opened]
    split
    next => exact sound.constants
    next => exact sound.constants
  faithful := sound.faithful.imp fun _ h => ⟨h.1.declareFunction proper positive, h.2⟩
  plain := sound.plain

theorem Sound.assert (sound : Sound isFunction sat p) (name : String) {fact : Formula Term}
    (named : fact.isNamed isFunction = true) :
    Sound isFunction sat (p.step (.assert name fact)) := by
  obtain ⟨log, faithful, asserted⟩ := sound.faithful
  have outcome := faithful.asserted name fact
  unfold step
  dsimp only
  generalize (BitBlaster.assert name fact).perform p.session = out at outcome ⊢
  cases outcome with
  | refused faithful' same =>
      exact ⟨fun c hc => sound.constants c (same.constants ▸ hc), ⟨log, faithful', asserted⟩,
        sound.plain⟩
  | accepted _ faithful' same known =>
      have constants := fun c hc => sound.constants c (same.constants ▸ hc)
      refine ⟨constants, ⟨_, faithful', ?_⟩, List.forall_mem_append.mpr ⟨sound.plain, ?_⟩⟩
      · rw [List.map_append, asserted, List.map_singleton]
      · exact List.forall_mem_singleton.mpr
          (faithful'.sound.plain_of_understood constants named known)

theorem Sound.check (sound : Sound isFunction sat p) (cancelled : Bool) (goal : Formula Term) :
    Sound isFunction sat (p.step (.check cancelled goal)) := by
  obtain ⟨log, faithful, asserted⟩ := sound.faithful
  obtain ⟨sound', grows, same, _⟩ :=
    BitBlaster.runs_check faithful.sound faithful.opened cancelled goal
  exact ⟨fun c hc => sound.constants c (same.constants ▸ hc),
    ⟨log, faithful.grows sound' grows, asserted⟩, sound.plain⟩

/-- One request preserves what holds between requests. -/
theorem Sound.step (sound : Sound isFunction sat p) {q : Request}
    (named : q.isNamed isFunction = true) : Sound isFunction sat (p.step q) := by
  cases q with
  | constant name =>
      simp only [Request.isNamed, Bool.and_eq_true, Bool.not_eq_true'] at named
      exact sound.constant named.1 named.2
  | function name arity =>
      simp only [Request.isNamed, Bool.and_eq_true, decide_eq_true_eq] at named
      exact sound.function named.1.1 named.2
  | assert name fact => exact sound.assert name named
  | check cancelled goal => exact sound.check cancelled goal

/-- A run preserves what holds between requests. -/
theorem sound_run (timeout : UInt32) {qs : List Request}
    (named : ∀ q ∈ qs, q.isNamed isFunction = true) :
    Sound isFunction sat (run sat timeout qs) := by
  induction qs using List.reverseRecOn with
  | nil => exact .start sat timeout
  | append_singleton qs q ih =>
      obtain ⟨before, last⟩ := List.forall_mem_append.mp named
      unfold run
      rw [List.foldl_append]
      exact (ih before).step (last q List.mem_cons_self)

/-- A goal that gets a verdict is plain, and the verdict says whether it holds together with the
asserted facts. -/
theorem Sound.check_settles (sound : Sound isFunction sat p) (decides : sat.Decides)
    {cancelled : Bool} {goal : Formula Term} {v : Verdict}
    (named : goal.isNamed isFunction = true)
    (answered : (BitBlaster.check cancelled goal).perform p.session = (.ok v, s)) :
    v.Settles (Satisfiable (p.asserted ++ [goal])) := by
  obtain ⟨log, faithful, asserted⟩ := sound.faithful
  obtain ⟨sound', _, same, answer⟩ :=
    BitBlaster.runs_check faithful.sound faithful.opened cancelled goal
  rw [answered] at sound' same answer
  obtain ⟨l, c, posed, rfl⟩ := answer v rfl
  have settles := posed.settles faithful decides
  have plain := sound'.plain_of_understood
    (fun c hc => sound.constants c (same.constants ▸ hc)) named posed.known
  rwa [asserted, Formula.map_reading (List.forall_mem_append.mpr
    ⟨sound.plain, List.forall_mem_singleton.mpr plain⟩)] at settles

/-- Verdicts on one question have one name. -/
theorem name_eq_of_settles {P : Prop} {v w : Verdict} (hv : v.Settles P) (hw : w.Settles P) :
    v.name = w.name := by
  cases v with
  | sat model =>
      cases w with
      | sat model' => rfl
      | unsat core => exact absurd hv hw
      | unknown reason => exact hw.elim
  | unsat core =>
      cases w with
      | sat model => exact absurd hw hv
      | unsat core' => rfl
      | unknown reason => exact hw.elim
  | unknown reason => exact hv.elim

/-- The verdict on a goal is right, when the session asks a SAT solver that is: it is satisfiable
when some interpretation makes the goal and all asserted facts true, and unsatisfiable otherwise.
Earlier goals and refused requests take no part in it: every run that asserts the same facts gives
the same verdict. -/
theorem check_decides (isFunction : String → Bool) (sat : SatSolver) (timeout : UInt32)
    (decides : sat.Decides) (qs : List Request) (named : ∀ q ∈ qs, q.isNamed isFunction = true)
    (cancelled : Bool) (goal : Formula Term) (namedGoal : goal.isNamed isFunction = true)
    (v : Verdict)
    (answered :
      (BitBlaster.check cancelled goal).perform (run sat timeout qs).session = (.ok v, s)) :
    ((∃ model, v = .sat model) ↔
        ∃ i : Interpretation, ∀ f ∈ (run sat timeout qs).asserted ++ [goal], f.holdsIn i = true) ∧
      ((∃ core, v = .unsat core) ↔
        ¬∃ i : Interpretation, ∀ f ∈ (run sat timeout qs).asserted ++ [goal],
          f.holdsIn i = true) ∧
      ∀ (others : List Request) (w : Verdict) (t : BitBlaster),
        (∀ q ∈ others, q.isNamed isFunction = true) →
        (run sat timeout others).asserted = (run sat timeout qs).asserted →
        (BitBlaster.check cancelled goal).perform (run sat timeout others).session = (.ok w, t) →
        w.name = v.name := by
  have settles := (sound_run timeout named).check_settles decides namedGoal answered
  have again : ∀ (others : List Request) (w : Verdict) (t : BitBlaster),
      (∀ q ∈ others, q.isNamed isFunction = true) →
      (run sat timeout others).asserted = (run sat timeout qs).asserted →
      (BitBlaster.check cancelled goal).perform (run sat timeout others).session = (.ok w, t) →
      w.name = v.name := by
    intro others w t named' same answered'
    have settles' := (sound_run timeout named').check_settles decides namedGoal answered'
    rw [same] at settles'
    exact name_eq_of_settles settles' settles
  cases v with
  | sat model =>
      have holds : ∃ i : Interpretation, _ := settles
      exact ⟨iff_of_true ⟨model, rfl⟩ holds, iff_of_false (by simp) (not_not.mpr holds), again⟩
  | unsat core =>
      have fails : ¬∃ i : Interpretation, _ := settles
      exact ⟨iff_of_false (by simp) fails, iff_of_true ⟨core, rfl⟩ fails, again⟩
  | unknown reason => exact settles.elim

/-- Two symbols are equal. -/
def symbolsEqual : Formula Term := .compare .eq (.symbol "x") (.symbol "y")

theorem plain_symbolsEqual : symbolsEqual.Plain := by
  rintro t (_ | ⟨_, _ | ⟨_, ⟨⟩⟩⟩)
  · exact .symbol (by decide)
  · exact .symbol (by decide)

/-- A fact says that two symbols are equal.  One about `f` is refused after its first application
was understood, and a goal says that the symbols differ. -/
def equals : List Request :=
  [.constant "x", .constant "y", .function "f" 1, .assert "same" symbolsEqual,
   .assert "refused" (.compare .eq (.apply "f" [.symbol "x"]) (.symbol "z")),
   .check false (.compare .ne (.symbol "x") (.symbol "y"))]

/-- The values of `f` at the two symbols. -/
def valuesDiffer : Formula Term :=
  .compare .ne (.apply "f" [.symbol "x"]) (.apply "f" [.symbol "y"])

/-- After `equals`, the values of `f` cannot differ. -/
theorem check_decides_equals :
    ∃ core s, (BitBlaster.check false valuesDiffer).perform (run clauseLearning 0 equals).session =
      (.ok (.unsat core), s) := by
  have named : ∀ q ∈ equals, q.isNamed (· == "f") = true := by
    decide
  have texts : (run clauseLearning 0 equals).asserted.map Formula.render =
      [symbolsEqual.render] := by
    decide +kernel
  obtain ⟨fact, asserted, text⟩ := List.map_eq_singleton_iff.mp texts
  have sound : Sound _ clauseLearning _ := sound_run 0 named
  have plain := sound.plain fact (by simp [asserted])
  rcases answer : (BitBlaster.check false valuesDiffer).perform
    (run clauseLearning 0 equals).session with ⟨fault | v, s⟩
  · have answered : ((BitBlaster.check false valuesDiffer).perform
        (run clauseLearning 0 equals).session).1.isOk = true := by
      decide +kernel
    rw [answer] at answered
    cases answered
  · have decides := check_decides (· == "f") clauseLearning 0 clauseLearning_decides equals named
      false valuesDiffer (by decide) v answer
    obtain ⟨core, rfl⟩ := decides.2.1.mpr fun ⟨i, holds⟩ => by
      obtain ⟨first, differ⟩ := List.forall_mem_append.mp holds
      have same : symbolsEqual.holdsIn i = true := by
        rw [← Formula.holdsIn_of_render_eq plain plain_symbolsEqual text]
        exact first fact (by simp [asserted])
      have equal : i.symbol "x" = i.symbol "y" := UInt64.toNat_inj.mp (beq_iff_eq.mp same)
      have other := differ valuesDiffer List.mem_cons_self
      simp [valuesDiffer, Formula.holdsIn, Formula.eval, Comparison.holds, Term.value,
        Term.valueList, equal] at other
    exact ⟨core, s, rfl⟩

end Inquiry

end ResourceSafety.Logic
