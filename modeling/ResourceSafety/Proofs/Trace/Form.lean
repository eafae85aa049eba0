import ResourceSafety.Trace.Step

/-!
# The form of traces

What a trace is made of, looked at through all its scopes and arms: whether every act
passes a test, whether a step declares a name in the scope around it, and whether the
arms of its branches keep their declarations to blocks and functions of their own.

A trace that was read from a draft has a unit with a name, and every consuming act in it
says where it is.
-/

namespace ResourceSafety

/-- The act is about obligations. -/
def Act.isProof : Act → Bool
  | fresh _ | assertShape _ _ | proveRange _ _ _ | proveShape _ _ => true
  | _ => false

/-- The act declares, reads, moves, uses, consumes or shares. -/
def Act.isSimple : Act → Bool
  | declare _ _ | use _ | consume _ | share _ => true
  | access .read _ | access .move _ => true
  | _ => false

/-- A consuming act says where it is. -/
def Act.isSited (site : String) : Act → Bool
  | consume _ => site != ""
  | _ => true

namespace Step

mutual

/-- Every act of the step passes a test. -/
def everyAct (test : Act → String → Bool) : Step → Bool
  | .act what site => test what site
  | .function _ _ _ body => everyActIn test body
  | .block _ _ body => everyActIn test body
  | .thread _ _ body => everyActIn test body
  | .branch _ arms => everyActOn test arms

/-- Every act of the steps passes a test. -/
def everyActIn (test : Act → String → Bool) : List Step → Bool
  | [] => true
  | s :: rest => everyAct test s && everyActIn test rest

/-- Every act of the arms passes a test. -/
def everyActOn (test : Act → String → Bool) : List (List Step) → Bool
  | [] => true
  | arm :: rest => everyActIn test arm && everyActOn test rest

end

mutual

/-- The step declares a name outside the blocks and functions inside it. -/
def declares : Step → Bool
  | .act (.declare _ _) _ => true
  | .act _ _ => false
  | .function _ _ _ _ => false
  | .block _ _ _ => false
  | .thread _ _ body => declaresIn body
  | .branch _ arms => declaresOn arms

/-- One of the steps declares a name outside the blocks and functions inside it. -/
def declaresIn : List Step → Bool
  | [] => false
  | s :: rest => declares s || declaresIn rest

/-- One of the arms declares a name outside the blocks and functions inside it. -/
def declaresOn : List (List Step) → Bool
  | [] => false
  | arm :: rest => declaresIn arm || declaresOn rest

end

mutual

/-- No arm of a branch in the step declares a name outside the blocks and functions inside
the arm. -/
def armsScoped : Step → Bool
  | .act _ _ => true
  | .function _ _ _ body => armsScopedIn body
  | .block _ _ body => armsScopedIn body
  | .thread _ _ body => armsScopedIn body
  | .branch _ arms => armsScopedOn arms

/-- The steps are scoped. -/
def armsScopedIn : List Step → Bool
  | [] => true
  | s :: rest => armsScoped s && armsScopedIn rest

/-- The arms are scoped, and none of them declares a name outside its blocks and
functions. -/
def armsScopedOn : List (List Step) → Bool
  | [] => true
  | arm :: rest => !declaresIn arm && armsScopedIn arm && armsScopedOn rest

end

mutual

/-- The step has simple acts only, and no thread region. -/
def isSimple : Step → Bool
  | .act what _ => what.isSimple
  | .function _ _ _ body => isSimpleIn body
  | .block _ _ body => isSimpleIn body
  | .thread _ _ _ => false
  | .branch _ arms => isSimpleOn arms

/-- The steps are simple. -/
def isSimpleIn : List Step → Bool
  | [] => true
  | s :: rest => isSimple s && isSimpleIn rest

/-- The arms are simple. -/
def isSimpleOn : List (List Step) → Bool
  | [] => true
  | arm :: rest => isSimpleIn arm && isSimpleOn rest

end

mutual

/-- Simple steps are not about obligations. -/
theorem everyAct_of_isSimple : ∀ {s : Step}, s.isSimple = true →
    s.everyAct (fun a _ => !a.isProof) = true
  | .act what site, h => by
    cases what <;> simp_all [isSimple, Act.isSimple, everyAct, Act.isProof]
  | .function _ _ _ body, h | .block _ _ body, h => by
    rw [isSimple] at h
    exact everyActIn_of_isSimpleIn h
  | .thread _ _ _, h => nomatch h
  | .branch _ arms, h => by
    rw [isSimple] at h
    exact everyActOn_of_isSimpleOn h

theorem everyActIn_of_isSimpleIn : ∀ {steps : List Step}, isSimpleIn steps = true →
    everyActIn (fun a _ => !a.isProof) steps = true
  | [], _ => rfl
  | s :: rest, h => by
    simp only [isSimpleIn, Bool.and_eq_true] at h
    simp only [everyActIn, Bool.and_eq_true]
    exact ⟨everyAct_of_isSimple h.1, everyActIn_of_isSimpleIn h.2⟩

theorem everyActOn_of_isSimpleOn : ∀ {arms : List (List Step)}, isSimpleOn arms = true →
    everyActOn (fun a _ => !a.isProof) arms = true
  | [], _ => rfl
  | arm :: rest, h => by
    simp only [isSimpleOn, Bool.and_eq_true] at h
    simp only [everyActOn, Bool.and_eq_true]
    exact ⟨everyActIn_of_isSimpleIn h.1, everyActOn_of_isSimpleOn h.2⟩

end

theorem everyActIn_cons {test : Act → String → Bool} {s : Step} {rest : List Step} :
    everyActIn test (s :: rest) = true ↔ s.everyAct test = true ∧ everyActIn test rest = true := by
  simp [everyActIn]

theorem armsScopedIn_cons {s : Step} {rest : List Step} :
    armsScopedIn (s :: rest) = true ↔ s.armsScoped = true ∧ armsScopedIn rest = true := by
  simp [armsScopedIn]

theorem everyActIn_of_mem {test : Act → String → Bool} {arms : List (List Step)} {arm : List Step}
    (h : everyActOn test arms = true) (mem : arm ∈ arms) : everyActIn test arm = true := by
  induction arms with
  | nil => cases mem
  | cons a rest ih =>
    simp only [everyActOn, Bool.and_eq_true] at h
    cases mem with
    | head => exact h.1
    | tail _ mem => exact ih h.2 mem

theorem armsScopedIn_of_mem {arms : List (List Step)} {arm : List Step}
    (h : armsScopedOn arms = true) (mem : arm ∈ arms) :
    armsScopedIn arm = true ∧ declaresIn arm = false := by
  induction arms with
  | nil => cases mem
  | cons a rest ih =>
    simp only [armsScopedOn, Bool.and_eq_true, Bool.not_eq_true'] at h
    cases mem with
    | head => exact ⟨h.1.2, h.1.1⟩
    | tail _ mem => exact ih h.2 mem

end Step

/-! ## Traces that were read -/

theorem Operation.site_ne_empty {α : Type} {op : Operation α} {type site : String} {bare : Bool}
    (h : op.error? type site bare = none) {name : String} (consume : op = .consume name) :
    site ≠ "" := by
  subst consume
  intro empty
  simp [Operation.error?, Operation.mayFloat, empty] at h

mutual

theorem Entry.isSited_step {place : String} : ∀ {e : Entry} {s : Step},
    e.step place = .ok s → s.everyAct (fun a site => a.isSited site) = true
  | ⟨[], _, _, _, _⟩, s, h => by simp [Entry.step] at h
  | ⟨[op], type, site, stop, body⟩, s, h => by
    rw [Entry.step] at h
    cases error : op.error? type site body.isEmpty with
    | some e => simp [error, bind, Except.bind] at h
    | none =>
      simp only [error, bind, Except.bind] at h
      cases inner : Entry.steps (bodyPlace place) 0 body with
      | error e => simp [inner] at h
      | ok steps =>
        simp only [inner] at h
        exact Entry.isSited_operation (Entry.isSited_steps inner)
          (Operation.site_ne_empty error) h
  | ⟨_ :: _ :: _, _, _, _, _⟩, s, h => by simp [Entry.step] at h

theorem Entry.isSited_operation {place type site stop : String} {body : List Step} :
    ∀ {op : Operation Entry} {s : Step},
      Step.everyActIn (fun a site => a.isSited site) body = true →
      (∀ {name : String}, op = .consume name → site ≠ "") →
      Entry.operationStep place type site stop body op = .ok s →
      s.everyAct (fun a site => a.isSited site) = true
  | .branch arms, s, _, _, h => by
    rw [Entry.operationStep] at h
    cases inner : Entry.arms place 0 arms with
    | error e => simp [inner, bind, Except.bind] at h
    | ok steps =>
      simp only [inner, bind, Except.bind, pure, Except.pure, Except.ok.injEq] at h
      subst h
      exact Entry.isSited_arms inner
  | .consume name, s, _, sited, h => by
    simp only [Entry.operationStep, Except.ok.injEq] at h
    subst h
    simpa [Step.everyAct, Act.isSited] using sited rfl
  | .proveRange r, s, _, _, h => by
    simp only [Entry.operationStep] at h
    split at h
    · cases h
      rfl
    · cases h
  | .function _, s, inner, _, h | .block, s, inner, _, h | .thread _, s, inner, _, h => by
    cases h
    exact inner
  | .declare _, s, _, _, h | .access _ _, s, _, _, h | .release _, s, _, _, h | .use _, s, _, _, h
  | .share _, s, _, _, h | .sync, s, _, _, h | .fresh _, s, _, _, h | .assertShape _, s, _, _, h
  | .proveShape _, s, _, _, h => by
    cases h
    rfl

theorem Entry.isSited_steps {list : String} {i : Nat} : ∀ {es : List Entry} {steps : List Step},
    Entry.steps list i es = .ok steps →
    Step.everyActIn (fun a site => a.isSited site) steps = true
  | [], steps, h => by
    rw [Entry.steps] at h
    cases h
    rfl
  | e :: es, steps, h => by
    rw [Entry.steps] at h
    cases first : Entry.step (itemPlace list i) e with
    | error e => simp [first, bind, Except.bind] at h
    | ok s =>
      cases rest : Entry.steps list (i + 1) es with
      | error e => simp [first, rest, bind, Except.bind] at h
      | ok ss =>
        simp only [first, rest, bind, Except.bind, pure, Except.pure, Except.ok.injEq] at h
        subst h
        simp [Step.everyActIn, Entry.isSited_step first, Entry.isSited_steps rest]

theorem Entry.isSited_arms {place : String} {i : Nat} :
    ∀ {es : List (List Entry)} {arms : List (List Step)}, Entry.arms place i es = .ok arms →
      Step.everyActOn (fun a site => a.isSited site) arms = true
  | [], arms, h => by
    rw [Entry.arms] at h
    cases h
    rfl
  | e :: es, arms, h => by
    rw [Entry.arms] at h
    cases first : Entry.steps (armPlace place i) 0 e with
    | error e => simp [first, bind, Except.bind] at h
    | ok s =>
      cases rest : Entry.arms place (i + 1) es with
      | error e => simp [first, rest, bind, Except.bind] at h
      | ok ss =>
        simp only [first, rest, bind, Except.bind, pure, Except.pure, Except.ok.injEq] at h
        subst h
        simp [Step.everyActOn, Entry.isSited_steps first, Entry.isSited_arms rest]

end

/-- A trace that was read has a unit with a name, and its consuming acts say where they
are. -/
theorem Draft.isSited_trace {d : Draft} {t : Trace} (h : d.trace = .ok t) :
    t.unit ≠ "" ∧ Step.everyActIn (fun a site => a.isSited site) t.steps = true := by
  simp only [Draft.trace, bind, Except.bind] at h
  split at h
  · cases h
  next named =>
    split at h
    · cases h
    · split at h
      · cases h
      · cases read : Entry.steps "steps" 0 d.steps with
        | error e => simp [read] at h
        | ok steps =>
          simp only [read] at h
          cases h
          exact ⟨by simpa using named, Entry.isSited_steps read⟩

end ResourceSafety
