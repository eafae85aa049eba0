import ResourceSafety.Logic.BitBlaster
import ResourceSafety.Proofs.Logic.Action
import ResourceSafety.Proofs.Logic.Bits
import ResourceSafety.Proofs.Logic.Reading

/-!
# Words of a session

An interpretation *agrees* with a valuation when it gives symbols and functions the values that the
words of a session have (`BitBlaster.Agrees`).  Then the word of a term has the value of the term
(`BitBlaster.Sound.value_eq`).

What a session has translated stays *sound* (`BitBlaster.Sound`).  Every application stands for a
plain term.  Wherever the circuit admits that two applications of a function have equal arguments,
they have equal results, since there is a congruence between them.

A session *grows* when it has translated more (`BitBlaster.Grows`).  Then every interpretation that
agreed with an admitted valuation still does, with the same values for the variables in use.  Gates
make a session grow, and so does an application that was not seen before
(`BitBlaster.remember_spec`).  Its congruences are clauses, yet they exclude no interpretation: the
word of the application is new, and can have the value of the function.
-/

namespace ResourceSafety.Logic

theorem Term.valueList_eq (i : Interpretation) (ts : List Term) :
    Term.valueList i ts = ts.map (Term.value i) := by
  induction ts with
  | nil => rfl
  | cons t ts ih => rw [valueList, ih, List.map_cons]

namespace BitBlaster

open Circuit (Always)
open Logic.Action

variable {b b' c : BitBlaster} {i : Interpretation} {v u : Valuation}

/-! ## Words of terms -/

/-- The word of a term that was translated before. -/
def word? (b : BitBlaster) : Term → Option Bits
  | .literal n => some (b.circuit.constBits n)
  | .symbol name => b.constants.lookup name
  | .apply f args =>
    (b.applications.find? (·.key == (Term.apply f args).render)).map (·.result)

/-- The application is one of a function to terms with words. -/
structure Stands (b : BitBlaster) (a : Application) (args : List Term) : Prop where
  plain : (Term.apply a.function args).Plain
  key : a.key = (Term.apply a.function args).render
  args : args.map b.word? = a.args.map some

/-- The words of symbols and applications have the values of an interpretation. -/
structure Agrees (b : BitBlaster) (i : Interpretation) (v : Valuation) : Prop where
  constants : ∀ name w, b.constants.lookup name = some w → w.value v = i.symbol name
  applications : ∀ a ∈ b.applications,
    a.result.value v = i.function a.function (a.args.map (Bits.value v))

/-- Applications of one function have equal values when their arguments have. -/
def Congruent (b : BitBlaster) (v : Valuation) : Prop :=
  ∀ a ∈ b.applications, ∀ a' ∈ b.applications, a.function = a'.function →
    a.args.map (Bits.value v) = a'.args.map (Bits.value v) → a.result.value v = a'.result.value v

/-- What a session has translated is in order. -/
structure Sound (b : BitBlaster) : Prop where
  circuit : b.circuit.Sound
  names : ∀ c ∈ b.constants, isName c.1 = true
  words : ∀ c ∈ b.constants, c.2.Within b.circuit.nextVar ∧ c.2.Positive
  functions : ∀ f ∈ b.functions, isName f.1 = true ∧ 0 < f.2
  arities : ∀ a ∈ b.applications, b.functions.lookup a.function = some a.args.length
  terms : ∀ a ∈ b.applications, ∃ args, b.Stands a args
  keys : ∀ a ∈ b.applications, b.applications.find? (·.key == a.key) = some a
  results : ∀ a ∈ b.applications, a.result.Within b.circuit.nextVar ∧ a.result.Positive
  congruent : ∀ v, b.circuit.Admits v → b.Congruent v

/-- The session knows more names and applications. -/
structure Grows (b b' : BitBlaster) : Prop where
  sat : b'.sat = b.sat
  constants : b.constants <+: b'.constants
  functions : b.functions <+: b'.functions
  facts : b'.facts = b.facts
  closed : b'.closed = b.closed
  applications : b.applications <+: b'.applications
  truth : b'.circuit.truth = b.circuit.truth
  nextVar : b.circuit.nextVar ≤ b'.circuit.nextVar
  maxVar : b.circuit.maxVar ≤ b'.circuit.maxVar
  admits : ∀ v, b'.circuit.Admits v → b.circuit.Admits v
  carries : ∀ i v, b.circuit.Admits v → b.Agrees i v →
    ∃ u, AgreeUpTo b.circuit.nextVar v u ∧ b'.circuit.Admits u ∧ b'.Agrees i u

/-- No names were declared in between. -/
structure SameNames (b b' : BitBlaster) : Prop where
  constants : b'.constants = b.constants
  functions : b'.functions = b.functions

theorem SameNames.trans (first : b.SameNames b') (second : b'.SameNames c) : b.SameNames c :=
  ⟨second.constants.trans first.constants, second.functions.trans first.functions⟩

/-! ## Agreement -/

theorem lookup_mono {α : Type} {xs ys : List (String × α)} (h : xs <+: ys) {name : String}
    {x : α} (found : xs.lookup name = some x) : ys.lookup name = some x := by
  obtain ⟨more, rfl⟩ := h
  rw [List.lookup_append, found]
  rfl

theorem Agrees.grows (grows : b.Grows b') (agrees : b'.Agrees i v) : b.Agrees i v where
  constants name w h := agrees.constants name w (lookup_mono grows.constants h)
  applications a ha := agrees.applications a (grows.applications.subset ha)

namespace Sound

/-- Words are made of variables in use. -/
theorem within_word? (sound : b.Sound) {t : Term} {w : Bits} (h : b.word? t = some w) :
    w.Within b.circuit.nextVar := by
  cases t with
  | literal n =>
      obtain rfl : b.circuit.constBits n = w := Option.some.inj h
      exact Bits.within_constBits sound.circuit n
  | symbol name =>
      obtain ⟨before, after, split, _⟩ := List.lookup_eq_some_iff.mp h
      exact (sound.words (name, w) (by simp [split])).1
  | apply f args =>
      obtain ⟨a, found, rfl⟩ := Option.map_eq_some_iff.mp h
      exact (sound.results a (List.mem_of_find?_eq_some found)).1

theorem within_args (sound : b.Sound) {a : Application} (ha : a ∈ b.applications) :
    ∀ w ∈ a.args, w.Within b.circuit.nextVar := by
  obtain ⟨args, stands⟩ := sound.terms a ha
  intro w hw
  have listed : some w ∈ args.map b.word? := stands.args ▸ List.mem_map_of_mem hw
  obtain ⟨t, _, word⟩ := List.mem_map.mp listed
  exact sound.within_word? word

theorem agrees_congr (sound : b.Sound) (agree : AgreeUpTo b.circuit.nextVar v u)
    (agrees : b.Agrees i v) : b.Agrees i u where
  constants name w h := by
    rw [← Bits.value_congr agree (sound.within_word? (t := .symbol name) h)]
    exact agrees.constants name w h
  applications a ha := by
    have args : a.args.map (Bits.value u) = a.args.map (Bits.value v) :=
      List.map_congr_left fun w hw => (Bits.value_congr agree (sound.within_args ha w hw)).symm
    rw [← Bits.value_congr agree (sound.results a ha).1, args]
    exact agrees.applications a ha

theorem value_args {args : List Term} {ws : List Bits} (words : args.map b.word? = ws.map some)
    (each : ∀ t ∈ args, ∀ w, b.word? t = some w → w.value v = t.value i) :
    ws.map (Bits.value v) = args.map (Term.value i) := by
  induction args generalizing ws with
  | nil =>
      cases ws with
      | nil => rfl
      | cons w ws => cases words
  | cons t args ih =>
      cases ws with
      | nil => cases words
      | cons w ws =>
          obtain ⟨first, rest⟩ := List.cons.inj words
          obtain ⟨here, others⟩ := List.forall_mem_cons.mp each
          rw [List.map_cons, List.map_cons, here w first, ih rest others]

/-- Where an interpretation agrees, the word of a term has the value of the term. -/
theorem value_eq (sound : b.Sound) (hv : b.circuit.Admits v) (agrees : b.Agrees i v) {t : Term}
    (plain : t.Plain) {w : Bits} (h : b.word? t = some w) : w.value v = t.value i := by
  induction t using Term.induction generalizing w with
  | literal n =>
      obtain rfl : b.circuit.constBits n = w := Option.some.inj h
      exact Bits.value_constBits sound.circuit hv n
  | symbol name => exact agrees.constants name w h
  | apply f args ih =>
      obtain ⟨a, found, rfl⟩ := Option.map_eq_some_iff.mp h
      have ha := List.mem_of_find?_eq_some found
      obtain ⟨others, stands⟩ := sound.terms a ha
      -- the application that was found by the text is one of the same function and terms
      have same : Term.apply a.function others = Term.apply f args := by
        have text := List.find?_some found
        exact Term.render_injective stands.plain plain (stands.key.symm.trans (beq_iff_eq.mp text))
      obtain ⟨function, rfl⟩ := Term.apply.inj same
      have plainArgs : ∀ t ∈ others, t.Plain := by
        cases plain with
        | apply _ _ each => exact each
      rw [agrees.applications a ha, Term.value, Term.valueList_eq, ← function,
        value_args stands.args fun t ht w hw => ih t ht (plainArgs t ht) hw]

end Sound

theorem Grows.refl (b : BitBlaster) : b.Grows b where
  sat := rfl
  constants := List.prefix_refl _
  functions := List.prefix_refl _
  facts := rfl
  closed := rfl
  applications := List.prefix_refl _
  truth := rfl
  nextVar := Nat.le_refl _
  maxVar := Nat.le_refl _
  admits _ hv := hv
  carries _ v hv agrees := ⟨v, .refl _ v, hv, agrees⟩

theorem Grows.trans (first : b.Grows b') (second : b'.Grows c) : b.Grows c where
  sat := second.sat.trans first.sat
  constants := first.constants.trans second.constants
  functions := first.functions.trans second.functions
  facts := second.facts.trans first.facts
  closed := second.closed.trans first.closed
  applications := first.applications.trans second.applications
  truth := second.truth.trans first.truth
  nextVar := Nat.le_trans first.nextVar second.nextVar
  maxVar := Nat.le_trans first.maxVar second.maxVar
  admits v hv := first.admits v (second.admits v hv)
  carries i v hv agrees := by
    obtain ⟨u, agree, hu, agrees'⟩ := first.carries i v hv agrees
    obtain ⟨w, agree', hw, agrees''⟩ := second.carries i u hu agrees'
    exact ⟨w, agree.trans agree' first.nextVar, hw, agrees''⟩

theorem word?_withCircuit {d : Circuit} (truth : d.truth = b.circuit.truth) (t : Term) :
    word? { b with circuit := d } t = b.word? t := by
  cases t with
  | literal n =>
      have same : d.constBits n = b.circuit.constBits n := by
        simp only [Circuit.constBits, Circuit.falsity, truth]
      exact congrArg some same
  | symbol name => rfl
  | apply f args => rfl

theorem Grows.word? (grows : b.Grows b') {t : Term} {w : Bits} (h : b.word? t = some w) :
    b'.word? t = some w := by
  cases t with
  | literal n => exact (word?_withCircuit grows.truth (.literal n)).trans h
  | symbol name => exact lookup_mono grows.constants h
  | apply f args =>
      obtain ⟨a, found, rfl⟩ := Option.map_eq_some_iff.mp h
      obtain ⟨more, split⟩ := grows.applications
      rw [BitBlaster.word?, ← split, List.find?_append, found]
      rfl

theorem Grows.words (grows : b.Grows b') {ts : List Term} {ws : List Bits}
    (words : ts.map b.word? = ws.map some) : ts.map b'.word? = ws.map some := by
  induction ts generalizing ws with
  | nil => rwa [List.map_nil] at words ⊢
  | cons t ts ih =>
      cases ws with
      | nil => cases words
      | cons w ws =>
          obtain ⟨first, rest⟩ := List.cons.inj words
          rw [List.map_cons, List.map_cons, grows.word? first, ih rest]

theorem Stands.grows {a : Application} {args : List Term} (stands : b.Stands a args)
    (grows : b.Grows b') : b'.Stands a args :=
  ⟨stands.plain, stands.key, grows.words stands.args⟩

/-! ## Gates -/

/-- Words stay when the circuit admits less. -/
theorem Sound.withCircuit (sound : b.Sound) {d : Circuit} (circuit : d.Sound)
    {P : Valuation → Prop} (more : b.circuit.Extends P d) : Sound { b with circuit := d } where
  circuit := circuit
  names := sound.names
  words c hc := ⟨(sound.words c hc).1.mono more.nextVar, (sound.words c hc).2⟩
  functions := sound.functions
  arities := sound.arities
  terms a ha := by
    obtain ⟨args, stands⟩ := sound.terms a ha
    refine ⟨args, stands.plain, stands.key, ?_⟩
    rw [funext fun t => word?_withCircuit more.truth t]
    exact stands.args
  keys := sound.keys
  results a ha := ⟨(sound.results a ha).1.mono more.nextVar, (sound.results a ha).2⟩
  congruent v hv := sound.congruent v (more.admits hv)

/-- Gates are built on words that stay. -/
theorem Sound.grows_build (sound : b.Sound) {d : Circuit} (more : b.circuit.Extends Always d) :
    b.Grows { b with circuit := d } :=
  { Grows.refl b with
    truth := more.truth
    nextVar := more.nextVar
    maxVar := more.maxVar
    admits := fun v hv => more.admits hv
    carries := fun i v hv agrees => by
      obtain ⟨u, agree, hu⟩ := more.carries v hv trivial
      have agrees' := sound.agrees_congr agree agrees
      exact ⟨u, agree, hu, agrees'.constants, agrees'.applications⟩ }

/-- What running an action comes to: the session is sound and has grown, no names were declared, and
a result is as a postcondition says. -/
def Runs {α : Type} (b : BitBlaster) (a : Action BitBlaster α) (Q : α → BitBlaster → Prop) : Prop :=
  (a.perform b).2.Sound ∧ b.Grows (a.perform b).2 ∧ b.SameNames (a.perform b).2 ∧
    ∀ x, (a.perform b).1 = .ok x → Q x (a.perform b).2

namespace Runs

variable {α β : Type} {a : Action BitBlaster α} {k : α → Action BitBlaster β}
  {Q : α → BitBlaster → Prop} {R : β → BitBlaster → Prop}

theorem pure (sound : b.Sound) {x : α} (h : Q x b) : b.Runs (pure x) Q :=
  ⟨sound, .refl b, ⟨rfl, rfl⟩, fun _ eq => Except.ok.inj eq ▸ h⟩

theorem throw (sound : b.Sound) (fault : Fault) : b.Runs (throw fault) Q :=
  ⟨sound, .refl b, ⟨rfl, rfl⟩, fun _ eq => nomatch eq⟩

theorem get_bind {k : BitBlaster → Action BitBlaster α} (h : b.Runs (k b) Q) :
    b.Runs (get >>= k) Q := h

theorem bind (first : b.Runs a Q)
    (next : ∀ x b', b'.Sound → b.Grows b' → Q x b' → b'.Runs (k x) R) : b.Runs (a >>= k) R := by
  obtain ⟨sound, grows, same, holds⟩ := first
  unfold Runs
  rw [perform_bind]
  rcases run : a.perform b with ⟨fault | x, b'⟩
  · rw [run] at sound grows same
    exact ⟨sound, grows, same, fun _ eq => nomatch eq⟩
  · rw [run] at sound grows same holds
    obtain ⟨sound', grows', same', holds'⟩ := next x b' sound grows (holds x rfl)
    exact ⟨sound', grows.trans grows', same.trans same', holds'⟩

theorem throw_bind (sound : b.Sound) (fault : Fault) :
    b.Runs (MonadExcept.throw fault >>= k) R :=
  (throw (Q := fun _ _ => False) sound fault).bind fun _ _ _ _ never => never.elim

theorem imp {T : α → BitBlaster → Prop} (h : b.Runs a Q)
    (weaker : ∀ x b', b'.Sound → b.Grows b' → Q x b' → T x b') : b.Runs a T :=
  ⟨h.1, h.2.1, h.2.2.1, fun x eq => weaker x _ h.1 h.2.1 (h.2.2.2 x eq)⟩

theorem build (sound : b.Sound) {m : Build α} {Q : α → Circuit → Prop}
    (h : b.circuit.Builds Always m Q) : b.Runs (BitBlaster.build m) (fun x b' => Q x b'.circuit) := by
  obtain ⟨circuit, more, holds⟩ := h
  exact ⟨sound.withCircuit circuit more, sound.grows_build more, ⟨rfl, rfl⟩,
    fun x eq => Except.ok.inj eq ▸ holds⟩

end Runs

/-! ## Applications -/

theorem all_zip_iff {ws ws' : List Bits} (length : ws.length = ws'.length) (v : Valuation) :
    (ws.zip ws').all (fun p => p.1.value v == p.2.value v) = true ↔
      ws.map (Bits.value v) = ws'.map (Bits.value v) := by
  induction ws generalizing ws' with
  | nil =>
      rw [List.length_eq_zero_iff.mp length.symm]
      exact iff_of_true rfl rfl
  | cons w ws ih =>
      cases ws' with
      | nil => cases length
      | cons w' ws' =>
          rw [List.zip_cons_cons, List.all_cons, Bool.and_eq_true, beq_iff_eq,
            ih (Nat.succ.inj length), List.map_cons, List.map_cons, List.cons.injEq]

/-- The applications have equal values when their arguments have. -/
def Coincide (a a' : Application) (v : Valuation) : Prop :=
  a.args.map (Bits.value v) = a'.args.map (Bits.value v) → a.result.value v = a'.result.value v

/-- The words of an application are made of variables up to `n`. -/
structure Within (n : Nat) (a : Application) : Prop where
  args : ∀ w ∈ a.args, w.Within n
  result : a.result.Within n

theorem Within.mono {m n : Nat} {a : Application} (h : Within m a) (le : m ≤ n) : Within n a :=
  ⟨fun w hw => (h.args w hw).mono le, h.result.mono le⟩

theorem dependsUpTo_coincide {n : Nat} {a a' : Application} (h : Within n a) (h' : Within n a') :
    DependsUpTo n (Coincide a a') := by
  intro v u agree
  have args {a : Application} (h : Within n a) :
      a.args.map (Bits.value v) = a.args.map (Bits.value u) :=
    List.map_congr_left fun w hw => Bits.value_congr agree (h.args w hw)
  rw [Coincide, Coincide, args h, args h', Bits.value_congr agree h.result,
    Bits.value_congr agree h'.result]

/-- A congruence is the condition that the applications coincide. -/
theorem builds_congruence {c : Circuit} (sound : c.Sound) {a a' : Application}
    (length : a.args.length = a'.args.length) (h : Within c.nextVar a) (h' : Within c.nextVar a') :
    c.Builds (Coincide a a') (congruence a a') (fun _ _ => True) := by
  have depends {n : Nat} (le : c.nextVar ≤ n) := dependsUpTo_coincide (h.mono le) (h'.mono le)
  refine (Circuit.builds_mapM (f := fun p v => p.1.value v == p.2.value v) _ sound
    fun p hp d sound' le => ?_).andThen (depends (Nat.le_refl _))
      fun same c₁ sound₁ more₁ means₁ => ?_
  · obtain ⟨left, right⟩ := List.of_mem_zip hp
    exact Bits.builds_eqBits sound' ((h.args _ left).mono le) ((h'.args _ right).mono le)
  refine (Circuit.builds_andN sound₁ means₁.vars).andThen (depends more₁.nextVar)
    fun l c₂ sound₂ more₂ means₂ => ?_
  have le₂ := Nat.le_trans more₁.nextVar more₂.nextVar
  refine (Bits.builds_eqBits sound₂ (h.result.mono le₂) (h'.result.mono le₂)).andThen
    (depends le₂) fun m c₃ sound₃ more₃ means₃ => ?_
  have vars : ∀ k ∈ [l.negation, m], k.var ≤ c₃.nextVar := by
    simp [Nat.le_trans means₂.var more₃.nextVar, means₃.var]
  refine ((Circuit.builds_clause sound₃ vars).congr fun v hv => ?_).imp fun _ _ _ _ _ => trivial
  have hv₂ := more₃.admits hv
  have equal : l.holds v = true ↔ a.args.map (Bits.value v) = a'.args.map (Bits.value v) := by
    rw [means₂.holds v hv₂, means₁.all (more₂.admits hv₂), List.all_map]
    exact all_zip_iff length v
  rw [Coincide, ← equal, ← UInt64.toNat_inj, Clause.holds, List.any_cons, List.any_cons,
    List.any_nil, Bool.or_false, Literal.holds_negation, means₃.holds v hv]
  cases l.holds v <;> simp [UInt64.toNat_inj]

theorem builds_congruences {c : Circuit} (sound : c.Sound) {a : Application} (h : Within c.nextVar a)
    (others : List Application) (each : ∀ a' ∈ others, a.args.length = a'.args.length ∧
      Within c.nextVar a') :
    c.Builds (fun v => ∀ a' ∈ others, Coincide a a' v) (others.forM (congruence a))
      (fun _ _ => True) := by
  induction others generalizing c with
  | nil =>
      exact (Circuit.Builds.pure sound trivial).congr fun v _ =>
        (iff_true_intro (List.forall_mem_nil _)).symm
  | cons a' others ih =>
      obtain ⟨⟨length, h'⟩, rest⟩ := List.forall_mem_cons.mp each
      refine ((builds_congruence sound length h h').seq
        (R := fun v => ∀ a' ∈ others, Coincide a a' v) ?_ fun _ d sound' more _ => ?_).congr ?_
      · exact fun v u agree => propext (forall₂_congr fun o ho =>
          (dependsUpTo_coincide h (rest o ho).2 v u agree).to_iff)
      · exact ih sound' (h.mono more.nextVar) fun o ho =>
          ⟨(rest o ho).1, (rest o ho).2.mono more.nextVar⟩
      · exact fun v _ => (List.forall_mem_cons (p := fun o => Coincide a o v)).symm

/-- The session with a further application. -/
def withApplication (b : BitBlaster) (a : Application) (d : Circuit) : BitBlaster :=
  { b with circuit := d, applications := b.applications ++ [a] }

/-- The other applications of a function. -/
def siblings (b : BitBlaster) (f : String) : List Application :=
  b.applications.filter (·.function == f)

theorem mem_siblings {f : String} {a : Application} :
    a ∈ b.siblings f ↔ a ∈ b.applications ∧ a.function = f := by
  rw [siblings, List.mem_filter, beq_iff_eq]

section

variable {a : Application} {d : Circuit}

/-- An interpretation extends to a further application: its word gets the value of the function. -/
theorem grows_withApplication (sound : b.Sound) (args : ∀ w ∈ a.args, w.Within b.circuit.nextVar)
    (result : a.result = Bits.after b.circuit.nextVar)
    (more : Circuit.Extends { b.circuit with nextVar := b.circuit.nextVar + width }
      (fun v => ∀ a' ∈ b.siblings a.function, Coincide a a' v) d) :
    b.Grows (b.withApplication a d) := by
  have le : b.circuit.nextVar ≤ b.circuit.nextVar + width := Nat.le_add_right _ _
  refine { Grows.refl b with
    applications := List.prefix_append _ _
    truth := more.truth
    nextVar := Nat.le_trans le more.nextVar
    maxVar := more.maxVar
    admits := fun v hv => more.admits hv
    carries := fun i v hv agrees => ?_ }
  obtain ⟨u, agree, value⟩ := Bits.exists_value_after v b.circuit.nextVar
    (i.function a.function (a.args.map (Bits.value v)))
  have agrees' := sound.agrees_congr agree agrees
  have values : a.args.map (Bits.value v) = a.args.map (Bits.value u) :=
    List.map_congr_left fun w hw => Bits.value_congr agree (args w hw)
  rw [← result, values] at value
  have coincide : ∀ a' ∈ b.siblings a.function, Coincide a a' u := by
    intro a' ha' same
    obtain ⟨mem, function⟩ := mem_siblings.mp ha'
    rw [value, agrees'.applications a' mem, function, same]
  obtain ⟨w, agree', hw⟩ := more.carries u
    (sound.circuit.admits_of_agree sound.circuit.used agree hv) coincide
  have agrees'' := sound.agrees_congr (agree.trans agree' le) agrees
  refine ⟨w, agree.trans agree' le, hw, agrees''.constants, ?_⟩
  refine List.forall_mem_append.mpr ⟨agrees''.applications, List.forall_mem_singleton.mpr ?_⟩
  have values' : a.args.map (Bits.value u) = a.args.map (Bits.value w) :=
    List.map_congr_left fun x hx => Bits.value_congr agree' ((args x hx).mono le)
  rw [← values', ← value, result]
  exact (Bits.value_congr agree' (Bits.within_after _)).symm

theorem sound_withApplication (sound : b.Sound) {args : List Term} (circuit : d.Sound)
    (arity : b.functions.lookup a.function = some args.length)
    (stands : b.Stands a args) (unseen : b.applications.find? (·.key == a.key) = none)
    (result : a.result = Bits.after b.circuit.nextVar)
    (more : Circuit.Extends { b.circuit with nextVar := b.circuit.nextVar + width }
      (fun v => ∀ a' ∈ b.siblings a.function, Coincide a a' v) d)
    (grows : b.Grows (b.withApplication a d)) : (b.withApplication a d).Sound where
  circuit := circuit
  names := sound.names
  words c hc := ⟨(sound.words c hc).1.mono grows.nextVar, (sound.words c hc).2⟩
  functions := sound.functions
  arities := by
    refine List.forall_mem_append.mpr ⟨sound.arities, List.forall_mem_singleton.mpr ?_⟩
    have length := congrArg List.length stands.args
    rw [List.length_map, List.length_map] at length
    exact arity.trans (congrArg some length)
  terms := List.forall_mem_append.mpr
    ⟨fun o ho => (sound.terms o ho).imp fun _ stands => stands.grows grows,
      List.forall_mem_singleton.mpr ⟨args, stands.grows grows⟩⟩
  keys := by
    refine List.forall_mem_append.mpr ⟨fun o ho => ?_, List.forall_mem_singleton.mpr ?_⟩
    · show (b.applications ++ [a]).find? _ = _
      rw [List.find?_append, sound.keys o ho]
      rfl
    · show (b.applications ++ [a]).find? _ = _
      rw [List.find?_append, unseen]
      simp
  results := by
    refine List.forall_mem_append.mpr ⟨fun o ho => ?_, List.forall_mem_singleton.mpr ?_⟩
    · exact ⟨(sound.results o ho).1.mono grows.nextVar, (sound.results o ho).2⟩
    · rw [result]
      exact ⟨(Bits.within_after _).mono more.nextVar, Bits.positive_after _⟩
  congruent v hv := by
    obtain ⟨before, coincide⟩ := more.requires v hv
    have old := sound.congruent v before
    refine List.forall_mem_append.mpr ⟨fun o ho => ?_, List.forall_mem_singleton.mpr ?_⟩
    · refine List.forall_mem_append.mpr ⟨old o ho, List.forall_mem_singleton.mpr ?_⟩
      exact fun function args => (coincide o (mem_siblings.mpr ⟨ho, function⟩) args.symm).symm
    · refine List.forall_mem_append.mpr ⟨fun o ho => ?_, List.forall_mem_singleton.mpr ?_⟩
      · exact fun function args => coincide o (mem_siblings.mpr ⟨ho, function.symm⟩) args
      · exact fun _ _ => rfl

end

theorem perform_remember (b : BitBlaster) (key f : String) (ws : List Bits) :
    let a : Application := ⟨key, f, ws, Bits.after b.circuit.nextVar⟩
    let d := (((b.siblings f).forM (congruence a)).run
      { b.circuit with nextVar := b.circuit.nextVar + width }).2
    (remember key f ws).perform b = (.ok a.result, b.withApplication a d) := rfl

/-- A term whose text was not seen gets a word of its own. -/
theorem remember_spec (sound : b.Sound) {f : String} {args : List Term} {ws : List Bits}
    (arity : b.functions.lookup f = some args.length) (plain : (Term.apply f args).Plain)
    (words : args.map b.word? = ws.map some)
    (unseen : b.applications.find? (·.key == (Term.apply f args).render) = none) :
    b.Runs (remember (Term.apply f args).render f ws) fun w b' =>
      b'.applications = b.applications ++ [⟨(Term.apply f args).render, f, ws, w⟩] := by
  let a : Application := ⟨(Term.apply f args).render, f, ws, Bits.after b.circuit.nextVar⟩
  have stands : b.Stands a args := ⟨plain, rfl, words⟩
  have within : ∀ w ∈ a.args, w.Within b.circuit.nextVar := by
    intro w hw
    have listed : some w ∈ args.map b.word? := words ▸ List.mem_map_of_mem hw
    obtain ⟨t, _, word⟩ := List.mem_map.mp listed
    exact sound.within_word? word
  have length : args.length = ws.length := by
    simpa only [List.length_map] using congrArg List.length words
  obtain ⟨circuit, more, _⟩ := builds_congruences (sound.circuit.addVars width) (a := a)
    ⟨fun w hw => (within w hw).mono (Nat.le_add_right _ _),
      Bits.within_after _⟩ (b.siblings f) fun a' ha' => by
        obtain ⟨mem, rfl⟩ := mem_siblings.mp ha'
        refine ⟨?_, fun w hw => (sound.within_args mem w hw).mono (Nat.le_add_right _ _),
          (sound.results a' mem).1.mono (Nat.le_add_right _ _)⟩
        have same := (sound.arities a' mem).symm.trans arity
        exact length.symm.trans (Option.some.inj same).symm
  have grows := grows_withApplication sound within rfl more
  rw [Runs, perform_remember]
  exact ⟨sound_withApplication sound circuit arity stands unseen rfl more grows, grows, ⟨rfl, rfl⟩,
    fun w eq => Except.ok.inj eq ▸ rfl⟩

end BitBlaster

end ResourceSafety.Logic
