import ResourceSafety.Proofs.Logic.Inquiry

/-!
# What a session understands

Terms and formulas are read from the left, up to the first part that is refused.  How far that is
depends on the *signature* only: the symbols that are declared, and the functions with their numbers
of arguments.  It does not depend on what was read before, although a session looks no further when
it meets a text again.

An application is *met* when it is understood on the way, with all its arguments (`Formula.met`).
Translating a formula adds to a session the applications met in it, and nothing else
(`BitBlaster.meets_formula`).
-/

namespace ResourceSafety.Logic

/-- The comparison has a meaning. -/
def Comparison.isKnown : Comparison → Bool
  | .other _ => false
  | _ => true

/-- The declared symbols, and the declared functions with their numbers of arguments. -/
structure Signature where
  /-- The symbols. -/
  constants : List String
  /-- The functions. -/
  functions : List (String × Nat)

variable (g : Signature)

namespace Term

mutual

/-- The symbols are declared, and the functions with the arguments they have. -/
def isUnderstood : Term → Bool
  | .literal _ => true
  | .symbol name => g.constants.contains name
  | .apply f args => g.functions.lookup f == some args.length && areUnderstood args

/-- All of the terms are understood. -/
def areUnderstood : List Term → Bool
  | [] => true
  | t :: ts => isUnderstood t && areUnderstood ts

end

mutual

/-- The applications met in a term.  The arguments of a function come before it, and are only read
when they are as many as it has. -/
def met : Term → List Term
  | .literal _ => []
  | .symbol _ => []
  | .apply f args =>
    if g.functions.lookup f == some args.length then
      metAll args ++ if areUnderstood g args then [.apply f args] else []
    else []

/-- The applications met in terms, up to the first that is refused. -/
def metAll : List Term → List Term
  | [] => []
  | t :: ts => met t ++ if isUnderstood g t then metAll ts else []

end

end Term

namespace Formula

mutual

/-- The terms are understood, and the comparisons known. -/
def isUnderstood : Formula Term → Bool
  | .compare op l r => l.isUnderstood g && (r.isUnderstood g && op.isKnown)
  | .all fs => areUnderstood fs
  | .any fs => areUnderstood fs
  | .not f => isUnderstood f
  | .truth _ => true

/-- All of the formulas are understood. -/
def areUnderstood : List (Formula Term) → Bool
  | [] => true
  | f :: fs => isUnderstood f && areUnderstood fs

end

mutual

/-- The applications met in a formula. -/
def met : Formula Term → List Term
  | .compare _ l r => l.met g ++ if l.isUnderstood g then r.met g else []
  | .all fs => metAll fs
  | .any fs => metAll fs
  | .not f => met f
  | .truth _ => []

/-- The applications met in formulas, up to the first that is refused. -/
def metAll : List (Formula Term) → List Term
  | [] => []
  | f :: fs => met f ++ if isUnderstood g f then metAll fs else []

end

end Formula

variable {g : Signature}

theorem Term.areUnderstood_iff {ts : List Term} :
    areUnderstood g ts = true ↔ ∀ t ∈ ts, t.isUnderstood g = true := by
  induction ts with
  | nil => simp [areUnderstood]
  | cons t ts ih => simp [areUnderstood, ih]

theorem Term.isUnderstood_apply {f : String} {args : List Term} :
    (Term.apply f args).isUnderstood g = true ↔
      g.functions.lookup f = some args.length ∧ ∀ t ∈ args, t.isUnderstood g = true := by
  rw [isUnderstood, Bool.and_eq_true, beq_iff_eq, areUnderstood_iff]

theorem Term.exists_of_mem_metAll {ts : List Term} {u : Term} (h : u ∈ metAll g ts) :
    ∃ t ∈ ts, u ∈ t.met g := by
  induction ts with
  | nil => cases h
  | cons t ts ih =>
      rw [metAll, List.mem_append] at h
      obtain h | h := h
      · exact ⟨t, List.mem_cons_self, h⟩
      · split at h
        · obtain ⟨t', ht', h⟩ := ih h
          exact ⟨t', List.mem_cons_of_mem t ht', h⟩
        · cases h

namespace BitBlaster

open Logic.Action

variable {b c : BitBlaster} {α β : Type}

theorem contains_map_fst {γ : Type} (entries : List (String × γ)) (name : String) :
    (entries.map Prod.fst).contains name = (entries.lookup name).isSome := by
  induction entries with
  | nil => rfl
  | cons e es ih =>
      rw [List.map_cons, List.contains_cons, List.lookup_cons, ih]
      cases name == e.1 <;> rfl

/-- The signature of a session. -/
def signature (b : BitBlaster) : Signature := ⟨b.constants.map Prod.fst, b.functions⟩

theorem SameNames.signature (same : b.SameNames c) : c.signature = b.signature := by
  rw [BitBlaster.signature, BitBlaster.signature, same.constants, same.functions]

/-- The session lists a term in its models: it is a plain symbol or application, and has a word. -/
def Lists (b : BitBlaster) : Term → Prop
  | .literal _ => False
  | t => t.Plain ∧ ∃ w, b.word? t = some w

theorem Lists.word {t : Term} (lists : b.Lists t) : t.Plain ∧ ∃ w, b.word? t = some w := by
  cases t with
  | literal n => exact lists.elim
  | symbol name => exact lists
  | apply f args => exact lists

theorem Lists.imp {t : Term} (lists : b.Lists t)
    (words : ∀ w, b.word? t = some w → c.word? t = some w) : c.Lists t := by
  cases t with
  | literal n => exact lists.elim
  | symbol name => exact lists.imp_right (.imp words)
  | apply f args => exact lists.imp_right (.imp words)

theorem Lists.grows {t : Term} (lists : b.Lists t) (grows : b.Grows c) : c.Lists t :=
  lists.imp fun _ word => grows.word? word

/-- A session understands the plain terms that have words, and lists what is met in them. -/
theorem Sound.understood_of_word (sound : b.Sound) {t : Term} (plain : t.Plain) {w : Bits}
    (word : b.word? t = some w) :
    t.isUnderstood b.signature = true ∧ ∀ u ∈ t.met b.signature, b.Lists u := by
  induction plain generalizing w with
  | literal n => exact ⟨rfl, List.forall_mem_nil _⟩
  | @symbol name proper =>
      obtain ⟨before, after, split, _⟩ := List.lookup_eq_some_iff.mp word
      refine ⟨List.contains_iff_mem.mpr ?_, List.forall_mem_nil _⟩
      exact List.mem_map.mpr ⟨(name, w), by simp [split], rfl⟩
  | @apply f args proper some each ih =>
      obtain ⟨arity, known⟩ := sound.known_args (.apply proper some each) word
      have inner : ∀ t ∈ args, _ := fun t ht => (known t ht).elim fun _ word => ih t ht word
      refine ⟨Term.isUnderstood_apply.mpr ⟨arity, fun t ht => (inner t ht).1⟩, fun u hu => ?_⟩
      rw [Term.met] at hu
      split at hu
      next =>
        obtain hu | hu := List.mem_append.mp hu
        · obtain ⟨t, ht, hu⟩ := Term.exists_of_mem_metAll hu
          exact (inner t ht).2 u hu
        · split at hu
          next =>
            cases List.mem_singleton.mp hu
            exact ⟨.apply proper some each, w, word⟩
          next => cases hu
      next => cases hu

/-! ## Translation -/

/-- What translating comes to: an answer if all is understood, and a fault otherwise.  The session
lists what is met, and has no further applications. -/
structure Meets (b : BitBlaster) (understood : Bool) (met : List Term)
    (out : Except Fault α × BitBlaster) : Prop where
  answers : out.1.isOk = understood
  sound : out.2.Sound
  grows : b.Grows out.2
  same : b.SameNames out.2
  lists : ∀ t ∈ met, out.2.Lists t
  only : ∀ a ∈ out.2.applications, a ∈ b.applications ∨ ∃ t ∈ met, t.render = a.key

/-- The session stays as it is. -/
theorem Meets.stay (sound : b.Sound) (r : Except Fault α) : b.Meets r.isOk [] (r, b) :=
  ⟨rfl, sound, .refl b, ⟨rfl, rfl⟩, List.forall_mem_nil _, fun _ ha => .inl ha⟩

/-- One thing is translated, and then another if the first is understood. -/
theorem Meets.bind {a : Action BitBlaster α} {k : α → Action BitBlaster β}
    {Q : α → BitBlaster → Prop} {first second : Bool} {met more : List Term}
    (h : b.Meets first met (a.perform b)) (runs : b.Runs a Q)
    (next : ∀ x c, c.Sound → b.Grows c → b.SameNames c → Q x c →
      c.Meets second more ((k x).perform c)) :
    b.Meets (first && second) (met ++ if first then more else []) ((a >>= k).perform b) := by
  obtain ⟨_, _, _, holds⟩ := runs
  rw [perform_bind]
  generalize a.perform b = out at h holds ⊢
  obtain ⟨r, c⟩ := out
  obtain ⟨rfl, sound, grows, same, lists, only⟩ := h
  cases r with
  | error fault =>
      show b.Meets false (met ++ []) (.error fault, c)
      rw [List.append_nil]
      exact ⟨rfl, sound, grows, same, lists, only⟩
  | ok x =>
      have rest := next x c sound grows same (holds x rfl)
      refine ⟨rest.answers, rest.sound, grows.trans rest.grows, same.trans rest.same, ?_, ?_⟩
      · exact List.forall_mem_append.mpr ⟨fun t ht => (lists t ht).grows rest.grows, rest.lists⟩
      · intro b hb
        obtain hb | ⟨t, ht, key⟩ := rest.only b hb
        · obtain hb | ⟨t, ht, key⟩ := only b hb
          · exact .inl hb
          · exact .inr ⟨t, List.mem_append_left _ ht, key⟩
        · exact .inr ⟨t, List.mem_append_right _ ht, key⟩

/-- A last step that meets nothing. -/
theorem Meets.finish {a : Action BitBlaster α} {k : α → Action BitBlaster β}
    {Q : α → BitBlaster → Prop} {first second : Bool} {met : List Term}
    (h : b.Meets first met (a.perform b)) (runs : b.Runs a Q)
    (next : ∀ x c, c.Sound → b.Grows c → Q x c → c.Meets second [] ((k x).perform c)) :
    b.Meets (first && second) met ((a >>= k).perform b) := by
  have both := h.bind runs fun x c sound grows _ => next x c sound grows
  rwa [ite_self, List.append_nil] at both

/-! ## Terms -/

variable {isFunction : String → Bool}

/-- Terms are translated one by one. -/
theorem meets_terms {ts : List Term}
    (each : ∀ t ∈ ts, ∀ b : BitBlaster, b.Sound → (∀ c ∈ b.constants, isFunction c.1 = false) →
      b.Meets (t.isUnderstood b.signature) (t.met b.signature) ((term t).perform b))
    (sound : b.Sound) (constants : ∀ c ∈ b.constants, isFunction c.1 = false) :
    b.Meets (Term.areUnderstood b.signature ts) (Term.metAll b.signature ts)
      ((terms ts).perform b) := by
  induction ts generalizing b with
  | nil => exact .stay sound (.ok [])
  | cons t ts ih =>
      obtain ⟨here, others⟩ := List.forall_mem_cons.mp each
      refine (here b sound constants).bind (runs_term t sound) fun w c sound' _ same _ => ?_
      have rest := ih others sound' (same.constants ▸ constants)
      rw [same.signature] at rest
      rw [← Bool.and_true (Term.areUnderstood b.signature ts)]
      exact rest.finish (runs_terms (fun t _ b => runs_term t) sound')
        fun ws c sound _ _ => .stay sound (.ok (w :: ws))

/-- A term of names that gets a word is understood, and what is met in it is listed. -/
theorem Sound.understood_of_answer (sound : b.Sound)
    (constants : ∀ c ∈ b.constants, isFunction c.1 = false) {t : Term}
    (named : t.isNamed isFunction = true) {w : Bits} (answer : (term t).perform b = (.ok w, c)) :
    t.isUnderstood b.signature = true ∧ ∀ u ∈ t.met b.signature, c.Lists u := by
  obtain ⟨sound', _, same, translated⟩ := runs_term t sound
  rw [answer] at sound' same translated
  obtain ⟨_, word⟩ := (translated w rfl).word
  rw [Term.reading_eq (Term.plain_flat named) t.render_flat] at word
  have plain := sound'.plain_of_known (same.constants.symm ▸ constants) named word
  have flat : t.flat = t := Term.render_injective (Term.plain_flat named) plain t.render_flat
  rw [flat] at word
  rw [← same.signature]
  exact sound'.understood_of_word plain word

theorem perform_term_symbol (b : BitBlaster) (name : String) :
    (term (.symbol name)).perform b =
      match b.constants.lookup name with
      | some w => (.ok w, b)
      | none => (.error (.unknownSymbol name), b) := by
  rw [term, perform_bind_ok perform_get]
  cases b.constants.lookup name <;> rfl

theorem perform_term_apply (b : BitBlaster) (f : String) (args : List Term) :
    (term (.apply f args)).perform b =
      match b.functions.lookup f with
      | none => (.error (.unknownSymbol f), b)
      | some arity =>
        if args.length ≠ arity then (.error (.wrongArity f arity args.length), b)
        else
          match b.applications.find? (·.key == (Term.apply f args).render) with
          | some a => (.ok a.result, b)
          | none =>
            match (terms args).perform b with
            | (.error fault, c) => (.error fault, c)
            | (.ok ws, c) => (remember (Term.apply f args).render f ws).perform c := by
  rw [term, perform_bind_ok perform_get]
  cases b.functions.lookup f with
  | none => rfl
  | some arity =>
      dsimp only
      split
      next => rfl
      next =>
        rw [perform_bind_ok perform_get]
        cases b.applications.find? (·.key == (Term.apply f args).render) with
        | some a => rfl
        | none =>
            dsimp only
            rw [perform_bind]
            rcases (terms args).perform b with ⟨_ | _, _⟩ <;> rfl

/-- An application of a function that is not declared, or has another number of arguments, is
refused before anything is met in it. -/
theorem meets_undeclared (sound : b.Sound) {f : String} {args : List Term}
    (unknown : b.signature.functions.lookup f ≠ some args.length) :
    b.Meets ((Term.apply f args).isUnderstood b.signature) ((Term.apply f args).met b.signature)
      ((term (.apply f args)).perform b) := by
  rw [perform_term_apply, Term.isUnderstood, Term.met, beq_eq_false_iff_ne.mpr unknown]
  cases lookup : b.functions.lookup f with
  | none => exact .stay sound (.error _)
  | some n =>
      have other : args.length ≠ n := fun eq => unknown (lookup.trans (congrArg some eq.symm))
      dsimp only
      rw [if_pos other]
      exact .stay sound (.error _)

/-- An application whose text was not seen is met behind what is met in its arguments, when these
are understood. -/
theorem meets_unseen (sound : b.Sound) (constants : ∀ c ∈ b.constants, isFunction c.1 = false)
    {f : String} {args : List Term} (named : (Term.apply f args).isNamed isFunction = true)
    (known : b.signature.functions.lookup f = some args.length)
    (inner : b.Meets (Term.areUnderstood b.signature args) (Term.metAll b.signature args)
      ((terms args).perform b))
    (performed : (term (.apply f args)).perform b =
      match (terms args).perform b with
      | (.error fault, c) => (.error fault, c)
      | (.ok ws, c) => (remember (Term.apply f args).render f ws).perform c) :
    b.Meets ((Term.apply f args).isUnderstood b.signature) ((Term.apply f args).met b.signature)
      ((term (.apply f args)).perform b) := by
  rcases translated : (terms args).perform b with ⟨fault | ws, c⟩
  · rw [translated] at performed inner
    have refused : Term.areUnderstood b.signature args = false := inner.answers.symm
    rw [performed, Term.isUnderstood, Term.met, known, refused, beq_self_eq_true, if_pos rfl,
      if_neg Bool.false_ne_true, List.append_nil]
    exact { inner with answers := rfl }
  · rw [translated] at performed inner
    obtain ⟨sound', grows, same, _⟩ := runs_term (.apply f args) sound
    rw [performed] at sound' grows same
    obtain ⟨understood, lists⟩ := sound.understood_of_answer constants named performed
    rw [performed, understood]
    refine ⟨rfl, sound', grows, same, lists, fun a ha => ?_⟩
    have areUnderstood : Term.areUnderstood b.signature args = true := inner.answers.symm
    rw [Term.met, known, areUnderstood, beq_self_eq_true, if_pos rfl, if_pos rfl]
    obtain old | new := List.mem_append.mp ha
    · exact (inner.only a old).imp_right fun ⟨t, ht, key⟩ => ⟨t, List.mem_append_left _ ht, key⟩
    · rw [List.mem_singleton.mp new]
      exact .inr ⟨_, List.mem_append_right _ List.mem_cons_self, rfl⟩

/-- A term of names is understood as its signature says, and adds the applications met in it. -/
theorem meets_term {t : Term} (named : t.isNamed isFunction = true) (sound : b.Sound)
    (constants : ∀ c ∈ b.constants, isFunction c.1 = false) :
    b.Meets (t.isUnderstood b.signature) (t.met b.signature) ((term t).perform b) := by
  induction t using Term.induction generalizing b with
  | literal n => exact .stay sound (.ok _)
  | symbol name =>
      rw [perform_term_symbol, Term.isUnderstood, signature, contains_map_fst]
      cases b.constants.lookup name with
      | some w => exact .stay sound (.ok w)
      | none => exact .stay sound (.error _)
  | apply f args ih =>
      obtain ⟨_, _, each⟩ := Term.isNamed_apply named
      by_cases known : b.signature.functions.lookup f = some args.length
      · have lookup : b.functions.lookup f = some args.length := known
        have performed := perform_term_apply b f args
        simp only [lookup, ne_eq, not_true_eq_false, if_false] at performed
        cases found : b.applications.find? (·.key == (Term.apply f args).render) with
        | some a =>
            rw [found] at performed
            obtain ⟨understood, lists⟩ := sound.understood_of_answer constants named performed
            rw [performed, understood]
            exact ⟨rfl, sound, .refl b, ⟨rfl, rfl⟩, lists, fun _ ha => .inl ha⟩
        | none =>
            rw [found] at performed
            exact meets_unseen sound constants named known (meets_terms
              (fun t ht b hb hc => ih t ht (each t ht) hb hc) sound constants) performed
      · exact meets_undeclared sound known

/-! ## Formulas -/

/-- Formulas are translated one by one. -/
theorem meets_formulas {fs : List (Formula Term)}
    (each : ∀ f ∈ fs, ∀ b : BitBlaster, b.Sound → (∀ c ∈ b.constants, isFunction c.1 = false) →
      b.Meets (f.isUnderstood b.signature) (f.met b.signature) ((formula f).perform b))
    (sound : b.Sound) (constants : ∀ c ∈ b.constants, isFunction c.1 = false) :
    b.Meets (Formula.areUnderstood b.signature fs) (Formula.metAll b.signature fs)
      ((formulas fs).perform b) := by
  induction fs generalizing b with
  | nil => exact .stay sound (.ok [])
  | cons f fs ih =>
      obtain ⟨here, others⟩ := List.forall_mem_cons.mp each
      refine (here b sound constants).bind (runs_formula f sound) fun l c sound' _ same _ => ?_
      have rest := ih others sound' (same.constants ▸ constants)
      rw [same.signature] at rest
      rw [← Bool.and_true (Formula.areUnderstood b.signature fs)]
      exact rest.finish (runs_formulas (fun f _ b => runs_formula f) sound')
        fun ls c sound _ _ => .stay sound (.ok (l :: ls))

/-- A step that builds gates meets nothing. -/
theorem Meets.build (sound : b.Sound) {m : Build α} {Q : α → Circuit → Prop}
    (h : b.circuit.Builds Circuit.Always m Q) : b.Meets true [] ((build m).perform b) := by
  obtain ⟨sound', grows, same, _⟩ := Runs.build sound h
  exact ⟨rfl, sound', grows, same, List.forall_mem_nil _, fun _ ha => .inl ha⟩

/-- A comparison of words is known or refused. -/
theorem meets_comparison (sound : b.Sound) {x y : Bits} (hx : x.Within b.circuit.nextVar)
    (hy : y.Within b.circuit.nextVar) (op : Comparison) :
    b.Meets op.isKnown [] ((comparison x y op).perform b) := by
  obtain ⟨sound', grows, same, _⟩ := runs_comparison sound hx hy op
  refine ⟨?_, sound', grows, same, List.forall_mem_nil _, fun _ ha => .inl ?_⟩
  · cases op <;> rfl
  · cases op <;> exact ha

/-- A formula of names is understood as its signature says, and adds the applications met in it. -/
theorem meets_formula {f : Formula Term} (named : f.isNamed isFunction = true) (sound : b.Sound)
    (constants : ∀ c ∈ b.constants, isFunction c.1 = false) :
    b.Meets (f.isUnderstood b.signature) (f.met b.signature) ((formula f).perform b) := by
  have each := List.all_eq_true.mp named
  clear named
  induction f using Formula.induction generalizing b with
  | compare op l r =>
      rw [formula]
      refine (meets_term (each l (by simp [Formula.leaves])) sound constants).bind
        (runs_term l sound) fun x c sound' _ same left => ?_
      have second := meets_term (each r (by simp [Formula.leaves])) sound'
        (same.constants ▸ constants)
      rw [same.signature] at second
      refine second.finish (runs_term r sound') fun y d sound'' grows right =>
        meets_comparison sound'' ?_ ?_ op
      · exact (sound'.within_word? left.word.2).mono grows.nextVar
      · exact sound''.within_word? right.word.2
  | all fs ih =>
      rw [Formula.leaves, Formula.leavesList_eq] at each
      have inner := meets_formulas (fun f hf b hb hc => ih f hf hb hc fun t ht =>
        each t (List.mem_flatMap.mpr ⟨f, hf, ht⟩)) sound constants
      rw [formula, Formula.isUnderstood, ← Bool.and_true (Formula.areUnderstood _ _)]
      exact inner.finish (runs_formulas (fun f _ b => runs_formula f) sound)
        fun ls c sound _ each => .build sound
          (Circuit.builds_andN sound.circuit (holds_of_forall₂ each).1)
  | any fs ih =>
      rw [Formula.leaves, Formula.leavesList_eq] at each
      have inner := meets_formulas (fun f hf b hb hc => ih f hf hb hc fun t ht =>
        each t (List.mem_flatMap.mpr ⟨f, hf, ht⟩)) sound constants
      rw [formula, Formula.isUnderstood, ← Bool.and_true (Formula.areUnderstood _ _)]
      exact inner.finish (runs_formulas (fun f _ b => runs_formula f) sound)
        fun ls c sound _ each => .build sound
          (Circuit.builds_orN sound.circuit (holds_of_forall₂ each).1)
  | not f ih =>
      rw [formula, Formula.isUnderstood, ← Bool.and_true (f.isUnderstood _)]
      exact (ih sound constants each).finish (runs_formula f sound)
        fun l c sound _ _ => .stay sound (.ok l.negation)
  | truth x =>
      rw [formula, perform_get_bind]
      exact .stay sound (.ok _)

end BitBlaster

end ResourceSafety.Logic
