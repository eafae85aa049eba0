import ResourceSafety.Checker.Nesting
import ResourceSafety.Checker.Requests
import ResourceSafety.Proofs.Capability.Covering
import ResourceSafety.Proofs.Logic.Action
import ResourceSafety.Proofs.Ownership.Covering

/-!
# What requests do to a unit

Each request is opened once here, for the case that it is not refused.  Its lemma says
what becomes of the open bodies, of the capabilities and of the findings, and that the
rest of the unit stays (`Turns`).  Later modules look at these lemmas only.
-/

namespace ResourceSafety

open Logic (Action Solver)

namespace CompilationUnit

variable {σ : Type} {u v : CompilationUnit σ}

/-! ## Bodies -/

theorem bodies_eq_cons (u : CompilationUnit σ) : u.bodies = u.current :: u.bodies.tail := by
  cases h : u.functions <;> simp [bodies, current, h]

theorem bodies_changeCurrent (u : CompilationUnit σ) (f : Body → Body) :
    (u.changeCurrent f).bodies = f u.current :: u.bodies.tail := by
  cases h : u.functions <;> simp [bodies, changeCurrent, current, h]

theorem bodies_mapBodies (u : CompilationUnit σ) (f : Body → Body) :
    (u.mapBodies f).bodies = u.bodies.map f := by
  simp [bodies, mapBodies]

theorem length_functions (u : CompilationUnit σ) : u.bodies.length = u.functions.length + 1 := by
  simp [bodies]

theorem locate_ok {name : String} {b : Body} {d : Declared} (h : u.locate name = .ok (b, d)) :
    u.locate? name = some (b, d) := by
  simp only [locate] at h
  cases found : u.locate? name with
  | none => simp [found] at h
  | some x => simpa [found] using h

theorem mem_bodies_of_locate? {name : String} {b : Body} {d : Declared}
    (h : u.locate? name = some (b, d)) : b ∈ u.bodies := by
  obtain ⟨b', mem, found⟩ := List.exists_of_findSome?_eq_some h
  obtain ⟨d', -, same⟩ := Option.map_eq_some_iff.mp found
  cases same
  exact mem

/-! ## Findings -/

theorem collectAll_eq (u : CompilationUnit σ) (vs : List Violation) :
    u.collectAll vs = { u with violations := (u.collectAll vs).violations } := by
  induction vs generalizing u with
  | nil => rfl
  | cons w vs ih =>
    show (u.collect w).collectAll vs = _
    rw [ih]
    simp only [collectAll, List.foldl_cons, collect]
    split <;> rfl

/-- What is collected depends on the findings that are there alone. -/
theorem collectAll_congr (h : v.violations = u.violations) (vs : List Violation) :
    (v.collectAll vs).violations = (u.collectAll vs).violations := by
  induction vs generalizing u v with
  | nil => exact h
  | cons w vs ih =>
    refine ih (u := u.collect w) (v := v.collect w) ?_
    simp only [collect, h]
    split <;> simp [h]

theorem mem_collectAll {vs : List Violation} {w : Violation}
    (h : w ∈ (u.collectAll vs).violations) : w ∈ u.violations ∨ w ∈ vs := by
  induction vs generalizing u with
  | nil => exact .inl h
  | cons x vs ih =>
    obtain old | new := ih (u := u.collect x) h
    · simp only [collect] at old
      split at old
      · exact .inl old
      · obtain old | here := List.mem_append.mp old
        · exact .inl old
        · exact .inr (List.mem_singleton.mp here ▸ List.mem_cons_self)
    · exact .inr (List.mem_cons_of_mem _ new)

/-- The keys that are known after findings were collected. -/
theorem exists_key_collectAll {vs : List Violation} {w : Violation} :
    (∃ x ∈ (u.collectAll vs).violations, x.key = w.key) ↔
      (∃ x ∈ u.violations, x.key = w.key) ∨ ∃ x ∈ vs, x.key = w.key := by
  induction vs generalizing u with
  | nil => simp [collectAll]
  | cons y vs ih =>
    have first : (∃ x ∈ (u.collect y).violations, x.key = w.key) ↔
        (∃ x ∈ u.violations, x.key = w.key) ∨ y.key = w.key := by
      simp only [collect]
      split
      next known =>
        obtain ⟨x, mem, same⟩ := List.any_eq_true.mp known
        exact ⟨.inl, fun h => h.elim id fun key => ⟨x, mem, (beq_iff_eq.mp same).trans key⟩⟩
      next => simp [or_and_right, exists_or]
    show (∃ x ∈ ((u.collect y).collectAll vs).violations, x.key = w.key) ↔ _
    simp [ih, first, or_assoc]

/-- No finding is lost, so a unit without findings collected none. -/
theorem collectAll_eq_nil {vs : List Violation} (h : (u.collectAll vs).violations = []) :
    u.violations = [] ∧ vs = [] := by
  induction vs generalizing u with
  | nil => exact ⟨h, rfl⟩
  | cons x vs ih =>
    have first := (ih (u := u.collect x) h).1
    simp only [collect] at first
    split at first
    next known => simp [first] at known
    next => simp at first

/-- `v` has the given bodies, capabilities and findings, and is like `u` otherwise. -/
structure Turns (u v : CompilationUnit σ) (bodies : List Body) (c : Capability.Context)
    (found : List Violation) : Prop where
  bodies : v.bodies = bodies
  capabilities : v.capabilities = c
  findings : v.violations = (u.collectAll found).violations
  registry : v.registry = u.registry
  forks : v.forks = u.forks
  finished : v.finished = u.finished
  queue : v.discharger.queue = u.discharger.queue
  nextBody : v.nextBody = u.nextBody

theorem Turns.silent {bodies : List Body} {c : Capability.Context} {found : List Violation}
    (h : u.Turns v bodies c found) (none : v.violations = []) : u.violations = [] ∧ found = [] :=
  collectAll_eq_nil (h.findings.symm.trans none)

theorem Turns.trans {w : CompilationUnit σ} {bodies bodies' : List Body}
    {c c' : Capability.Context} {found found' : List Violation} (h : u.Turns v bodies c found)
    (h' : v.Turns w bodies' c' found') : u.Turns w bodies' c' (found ++ found') where
  bodies := h'.bodies
  capabilities := h'.capabilities
  findings := by
    rw [h'.findings, collectAll_congr h.findings, collectAll, collectAll, collectAll,
      List.foldl_append]
  registry := h'.registry.trans h.registry
  forks := h'.forks.trans h.forks
  finished := h'.finished.trans h.finished
  queue := h'.queue.trans h.queue
  nextBody := h'.nextBody.trans h.nextBody

/-- A change that finds nothing, after one that may. -/
theorem Turns.drop {w : CompilationUnit σ} {bodies bodies' : List Body}
    {c c' : Capability.Context} {found : List Violation} (h : u.Turns v bodies c found)
    (h' : v.Turns w bodies' c' []) : u.Turns w bodies' c' found := by
  simpa using h.trans h'

theorem turns_collectAll (u : CompilationUnit σ) (found : List Violation) :
    u.Turns (u.collectAll found) u.bodies u.capabilities found := by
  rw [collectAll_eq u found]
  exact ⟨rfl, rfl, rfl, rfl, rfl, rfl, rfl, rfl⟩

/-! ## Declarations and accesses -/

theorem requireLive_ok {x : Unit} (h : requireLive.perform u = (.ok x, v)) : v = u := by
  simp only [requireLive, Action.perform_get_bind] at h
  split at h
  · cases h
  · cases h
    rfl

/-- A request that is answered goes on in a live unit. -/
theorem live_bind_ok {α : Type} {f : Unit → Action (CompilationUnit σ) α} {x : α}
    (h : (requireLive >>= f).perform u = (.ok x, v)) : (f ()).perform u = (.ok x, v) := by
  obtain ⟨_, _, live, h⟩ := Action.bind_ok h
  cases requireLive_ok live
  exact h

theorem onCapabilities_ok {f : Capability.Context → Except Fault Capability.Context} {x : Unit}
    (h : (onCapabilities f).perform u = (.ok x, v)) :
    ∃ c, f u.capabilities = .ok c ∧ v = { u with capabilities := c } := by
  simp only [onCapabilities, Action.perform_get_bind] at h
  obtain ⟨c, answer, h⟩ := Action.ofExcept_bind_ok h
  cases h
  exact ⟨c, answer, rfl⟩

/-- What a name is declared as. -/
def declared (u : CompilationUnit σ) (name : String) (type : Option Ty) (site : Span) : Declared :=
  { name, type, definedAt := site, mode := (type.map u.registry.mode).getD {} }

/-- A change of the innermost body. -/
theorem turns_changeCurrent {b : Body} {rest : List Body} (h : u.bodies = b :: rest)
    (f : Body → Body) : u.Turns (u.changeCurrent f) (f b :: rest) u.capabilities [] := by
  rw [bodies_eq_cons, List.cons.injEq] at h
  obtain ⟨rfl, rfl⟩ := h
  refine ⟨bodies_changeCurrent u f, ?_, ?_, ?_, ?_, ?_, ?_, ?_⟩ <;>
    cases h : u.functions <;> simp [changeCurrent, h, collectAll]

/-- A change of one body among all. -/
theorem turns_changeBody (u : CompilationUnit σ) (id : Nat) (f : Body → Body) :
    u.Turns (u.changeBody id f) (u.bodies.map fun b => if b.id = id then f b else b)
      u.capabilities [] :=
  ⟨bodies_mapBodies u _, rfl, rfl, rfl, rfl, rfl, rfl, rfl⟩

/-- A change of the capabilities. -/
theorem turns_capabilities (u : CompilationUnit σ) (c : Capability.Context) :
    u.Turns { u with capabilities := c } u.bodies c [] :=
  ⟨rfl, rfl, rfl, rfl, rfl, rfl, rfl, rfl⟩

theorem declare_ok {name : String} {type : Option Ty} {site : Span} {d : Declared}
    (h : (declare name type site).perform u = (.ok d, v)) :
    ∃ tracker c, u.current.tracker.define name site = .ok tracker ∧
      (match (u.declared name type site).mode.capability with
        | some kind => u.capabilities.define name kind site = .ok c
        | none => c = u.capabilities) ∧
      u.Turns v ({ u.current with tracker }.addName (u.declared name type site) :: u.bodies.tail)
        c [] := by
  simp only [declare] at h
  replace h := live_bind_ok h
  rw [Action.perform_get_bind] at h
  split at h
  · cases h
  · obtain ⟨tracker, defined, h⟩ := Action.ofExcept_bind_ok h
    rw [Action.perform_modify_bind] at h
    have first := turns_changeCurrent (bodies_eq_cons u) fun b => { b with tracker }
    cases kind : (u.declared name type site).mode.capability with
    | none =>
      rw [show ((type.map u.registry.mode).getD {}).capability = none from kind] at h
      cases h
      have second := turns_changeCurrent first.bodies (·.addName (u.declared name type site))
      exact ⟨tracker, _, defined, rfl, first.trans (first.capabilities ▸ second)⟩
    | some kind' =>
      rw [show ((type.map u.registry.mode).getD {}).capability = some kind' from kind] at h
      obtain ⟨_, _, held, h⟩ := Action.bind_ok h
      obtain ⟨c, new, rfl⟩ := onCapabilities_ok held
      cases h
      rw [first.capabilities] at new
      have second := turns_capabilities
        (u.changeCurrent fun b => { b with tracker }) c
      have third := turns_changeCurrent (second.bodies.trans first.bodies)
        (·.addName (u.declared name type site))
      exact ⟨tracker, c, defined, new, first.trans (second.trans third)⟩

/-- Only a name that is new in the innermost scope is declared. -/
theorem declare_new {name : String} {type : Option Ty} {site : Span} {d : Declared}
    (h : (declare name type site).perform u = (.ok d, v)) :
    u.current.innerNames.any (·.name == name) = false := by
  simp only [declare] at h
  replace h := live_bind_ok h
  rw [Action.perform_get_bind] at h
  split at h
  · cases h
  next new => exact Bool.eq_false_iff.mpr new

/-- An accepted access is remarked at most. -/
theorem remark_ok {d : Declared} {a : Ownership.Access} {site : Span} {x : Unit}
    (h : (remark d a site).perform u = (.ok x, v)) :
    ∃ c, u.capabilities.Remarked c ∧ u.Turns v u.bodies c [] := by
  have stays : u.Turns u u.bodies u.capabilities [] := turns_collectAll u []
  simp only [remark] at h
  split at h
  · split at h
    · obtain ⟨c, noted, rfl⟩ := onCapabilities_ok h
      exact ⟨c, .inr ⟨_, _, _, noted⟩, turns_capabilities u c⟩
    · cases h
      exact ⟨_, .inl rfl, stays⟩
  · cases h
    exact ⟨_, .inl rfl, stays⟩

/-- What an ownership access comes to. -/
theorem access_ok {a : Ownership.Access} {name : String} {site : Span} {w : Option Violation}
    (h : (access a name site).perform u = (.ok w, v)) :
    ∃ b d tracker c, u.locate? name = some (b, d) ∧
      b.tracker.access a name site = .ok (w, tracker) ∧ u.capabilities.Remarked c ∧
      u.Turns v (u.bodies.map fun x => if x.id = b.id then { x with tracker } else x) c
        w.toList := by
  simp only [access] at h
  replace h := live_bind_ok h
  rw [Action.perform_get_bind] at h
  obtain ⟨⟨b, d⟩, located, h⟩ := Action.ofExcept_bind_ok h
  obtain ⟨⟨w', tracker⟩, accessed, h⟩ := Action.ofExcept_bind_ok h
  rw [Action.perform_modify_bind] at h
  have first := turns_changeBody u b.id fun x => { x with tracker }
  cases w' with
  | some w' =>
    cases h
    have second := turns_collectAll (u.changeBody b.id fun x => { x with tracker }) [w']
    rw [first.bodies, first.capabilities] at second
    exact ⟨b, d, tracker, _, locate_ok located, accessed, .inl rfl, first.trans second⟩
  | none =>
    obtain ⟨_, _, noted, h⟩ := Action.bind_ok h
    cases h
    obtain ⟨c, remarked, second⟩ := remark_ok noted
    rw [first.bodies] at second
    exact ⟨b, d, tracker, c, locate_ok located, accessed, first.capabilities ▸ remarked,
      first.trans second⟩

theorem release_ok {name : String} {site : Span} {x : Unit}
    (h : (release name site).perform u = (.ok x, v)) :
    ∃ b d tracker, u.locate? name = some (b, d) ∧ b.tracker.release name site = .ok tracker ∧
      u.Turns v (u.bodies.map fun x => if x.id = b.id then { x with tracker } else x)
        u.capabilities [] := by
  simp only [release] at h
  replace h := live_bind_ok h
  rw [Action.perform_get_bind] at h
  obtain ⟨⟨b, d⟩, located, h⟩ := Action.ofExcept_bind_ok h
  obtain ⟨tracker, released, h⟩ := Action.ofExcept_bind_ok h
  cases h
  exact ⟨b, d, tracker, locate_ok located, released, turns_changeBody u _ _⟩

/-- What an access to a capability comes to.  A name without a capability is passed
over. -/
theorem capabilityAccess_ok
    {op : Capability.Context → String → Span → Except Fault (Option Violation × Capability.Context)}
    {name : String} {site : Span} {w : Option Violation}
    (h : (capabilityAccess op name site).perform u = (.ok w, v)) :
    ∃ b d, u.locate? name = some (b, d) ∧
      if d.mode.hasCapability then
        ∃ c, op u.capabilities name site = .ok (w, c) ∧ u.Turns v u.bodies c w.toList
      else v = u := by
  simp only [capabilityAccess] at h
  replace h := live_bind_ok h
  rw [Action.perform_get_bind] at h
  obtain ⟨⟨b, d⟩, located, h⟩ := Action.ofExcept_bind_ok h
  refine ⟨b, d, locate_ok located, ?_⟩
  cases has : d.mode.hasCapability with
  | false =>
    simp only [has, Bool.not_false, if_true] at h
    cases h
    rfl
  | true =>
    simp only [has, Bool.not_true, Bool.false_eq_true, if_false, Action.perform_get_bind] at h
    obtain ⟨⟨w', c⟩, reached, h⟩ := Action.ofExcept_bind_ok h
    rw [Action.perform_modify_bind] at h
    have first := turns_capabilities u c
    cases w' with
    | none =>
      cases h
      exact ⟨c, reached, first⟩
    | some w' =>
      cases h
      exact ⟨c, reached, first.trans (turns_collectAll { u with capabilities := c } [w'])⟩

/-! ## Threads and synchronization -/

theorem enterThread_ok {tag : ThreadTag} {x : Unit}
    (h : (enterThread tag).perform u = (.ok x, v)) :
    ∃ c, u.capabilities.Quiet c ∧ u.Turns v u.bodies c [] := by
  simp only [enterThread] at h
  replace h := live_bind_ok h
  cases h
  exact ⟨_, Capability.Context.quiet_enterThread _ tag, turns_capabilities u _⟩

theorem exitThread_ok {x : Unit} (h : exitThread.perform u = (.ok x, v)) :
    ∃ c, u.capabilities.Quiet c ∧ u.Turns v u.bodies c [] := by
  simp only [exitThread] at h
  replace h := live_bind_ok h
  obtain ⟨c, left, rfl⟩ := onCapabilities_ok h
  exact ⟨c, Capability.Context.quiet_exitThread left, turns_capabilities u c⟩

theorem sync_ok {site : Span} {x : Unit} (h : (sync site).perform u = (.ok x, v)) :
    ∃ c, u.capabilities.Quiet c ∧ u.Turns v u.bodies c [] := by
  simp only [sync] at h
  replace h := live_bind_ok h
  cases h
  exact ⟨_, Capability.Context.quiet_sync _ site, turns_capabilities u _⟩

/-! ## Blocks and functions -/

/-- The body with one more block. -/
def enterBody (site : Span) (b : Body) : Body :=
  { b with tracker := b.tracker.enter, blocks := { span := site } :: b.blocks }

theorem enterBlock_ok {site : Span} {x : Unit} (h : (enterBlock site).perform u = (.ok x, v)) :
    u.Turns v (enterBody site u.current :: u.bodies.tail) u.capabilities.enter [] := by
  simp only [enterBlock] at h
  replace h := live_bind_ok h
  cases h
  have first := turns_changeCurrent (bodies_eq_cons u) (enterBody site)
  have second := turns_capabilities (u.changeCurrent (enterBody site)) u.capabilities.enter
  rw [first.bodies] at second
  exact first.trans second

theorem run_get_bind {α : Type} (f : CompilationUnit σ → StateM (CompilationUnit σ) α) :
    (get >>= f).run u = (f u).run u := rfl

theorem run_bind_of {α β : Type} {a : StateM (CompilationUnit σ) α} {x : α}
    {f : α → StateM (CompilationUnit σ) β} (h : a.run u = (x, v)) :
    (a >>= f).run u = (f x).run v := by
  rw [StateT.run_bind, h]
  rfl

theorem run_modify_bind {α : Type} (g : CompilationUnit σ → CompilationUnit σ)
    (f : PUnit → StateM (CompilationUnit σ) α) : (modify g >>= f).run u = (f ⟨⟩).run (g u) := rfl

theorem exists_leaveFrame {f : Nat} {rest : List Nat} (open_ : u.capabilities.frames = f :: rest)
    (site : Span) : ∃ found v, (leaveFrame site).run u = ((found, none), v) := by
  rw [leaveFrame, run_get_bind]
  simp only [Capability.Context.exit, open_]
  exact ⟨_, _, rfl⟩

theorem leaveFrame_ok {site : Span} {found : List Violation}
    (h : (leaveFrame site).run u = ((found, none), v)) :
    ∃ c, u.capabilities.Leaves found c ∧ u.Turns v u.bodies c found := by
  rw [leaveFrame, run_get_bind] at h
  cases left : u.capabilities.exit site with
  | error fault =>
    rw [left] at h
    cases h
  | ok result =>
    rw [left] at h
    cases h
    refine ⟨result.2, Capability.Context.leaves_exit left, ?_⟩
    exact (turns_capabilities u result.2).trans
      (turns_collectAll { u with capabilities := result.2 } _)

theorem closeBlock_ok {site : Span} {found : List Violation}
    (h : (closeBlock site).run u = ((found, none), v)) :
    ∃ k blocks tracker c, u.current.blocks = k :: blocks ∧
      u.current.tracker.exit = .ok tracker ∧ u.capabilities.Leaves found c ∧
      u.Turns v ({ u.current with tracker, blocks } :: u.bodies.tail) c found := by
  rw [closeBlock, run_get_bind] at h
  cases blocks : u.current.blocks with
  | nil =>
    simp only [blocks] at h
    cases h
  | cons k rest =>
    cases left : u.current.tracker.exit with
    | error fault =>
      simp only [blocks, left] at h
      cases h
    | ok tracker =>
      simp only [blocks, left] at h
      have first := turns_changeCurrent (bodies_eq_cons u) ({ · with tracker, blocks := rest })
      obtain ⟨c, leaves, second⟩ := leaveFrame_ok
        (u := u.changeCurrent ({ · with tracker, blocks := rest })) h
      rw [first.bodies] at second
      rw [first.capabilities] at leaves
      exact ⟨k, rest, tracker, c, rfl, rfl, leaves, first.trans second⟩

theorem exitBlock_ok {site : Span} {found : List Violation}
    (h : (exitBlock site).run u = ((found, none), v)) :
    (closeBlock site).run u = ((found, none), v) := by
  rw [exitBlock, run_get_bind] at h
  split at h
  · cases h
  · exact h

/-- Two closings without a fault. -/
theorem andThen_ok {first second : StateM (CompilationUnit σ) Sweep} {found : List Violation}
    (h : (Sweep.andThen first second).run u = ((found, none), v)) :
    ∃ w early late, first.run u = ((early, none), w) ∧ second.run w = ((late, none), v) ∧
      found = early ++ late := by
  rw [Sweep.andThen, StateT.run_bind] at h
  rcases run : first.run u with ⟨⟨early, fault⟩, w⟩
  rw [run] at h
  cases fault with
  | some fault => cases h
  | none =>
    rcases run' : second.run w with ⟨⟨late, fault⟩, w'⟩
    replace h : ((early ++ late, fault), w') = ((found, none), v) := by
      rw [← h]
      show _ = (StateT.run (bind second _) w)
      rw [StateT.run_bind, run']
      rfl
    cases h
    exact ⟨w, early, late, rfl, run', rfl⟩

/-- The body of a function that begins. -/
def newBody (u : CompilationUnit σ) (name : String) (site : Span) : Body :=
  { id := u.nextBody, name, span := site }

theorem beginFunction_ok {name : String} {site : Span} {x : Unit}
    (h : (beginFunction name site).perform u = (.ok x, v)) :
    { u with nextBody := u.nextBody + 1 }.Turns v (u.newBody name site :: u.bodies)
      u.capabilities.enter [] := by
  simp only [beginFunction] at h
  replace h := live_bind_ok h
  cases h
  exact ⟨rfl, rfl, rfl, rfl, rfl, rfl, rfl, rfl⟩

theorem dropFunction_ok {site : Span} {found : List Violation} (inside : u.functions ≠ [])
    (h : (dropFunction site).run u = ((found, none), v)) :
    found = [] ∧ u.Turns v u.bodies.tail u.capabilities [] := by
  cases h
  refine ⟨rfl, ?_⟩
  cases functions : u.functions with
  | nil => exact absurd functions inside
  | cons f rest =>
    constructor <;> simp [functions, bodies, collectAll]

variable [Solver σ]

/-- With nothing queued there is nothing to decide. -/
theorem run_flushQueue (gaveUp : Nat → Bool) (h : u.discharger.queue = []) :
    (flushQueue gaveUp).run u = (([], none), u) := by
  rw [flushQueue, run_get_bind]
  have flushed : (Discharger.flush gaveUp).run u.discharger =
      (([], none), u.discharger) := by
    show (Discharger.flushFrom _ 0 u.discharger.queue).run u.discharger = _
    rw [h]
    rfl
  simp only [flushed]
  rfl

/-- A function without open blocks ends. -/
theorem endFunction_ok {gaveUp : Nat → Bool} {site : Span} {found : List Violation}
    (queue : u.discharger.queue = []) (closed : u.current.blocks = [])
    (h : (endFunction gaveUp site).run u = ((found, none), v)) :
    ∃ c, u.capabilities.Leaves found c ∧ u.Turns v u.bodies.tail c found := by
  rw [endFunction, run_get_bind] at h
  split at h
  · cases h
  · cases functions : u.functions with
    | nil =>
      simp only [functions] at h
      cases h
    | cons f rest =>
      have blocks : f.blocks = [] := by simpa [current, functions] using closed
      simp only [functions, blocks] at h
      -- nothing waits and no block is open, so only the frame and the body go
      obtain ⟨w, early, late, flushed, h, rfl⟩ := andThen_ok h
      rw [run_flushQueue gaveUp queue] at flushed
      cases flushed
      obtain ⟨w, early, late, nothing, h, rfl⟩ := andThen_ok h
      cases nothing
      obtain ⟨w, early, late, left, dropped, rfl⟩ := andThen_ok h
      obtain ⟨c, leaves, first⟩ := leaveFrame_ok left
      have inside : w.functions ≠ [] := by
        have same := congrArg List.length first.bodies
        rw [length_functions, length_functions, functions] at same
        intro none
        simp [none] at same
      obtain ⟨rfl, second⟩ := dropFunction_ok inside dropped
      rw [first.bodies, first.capabilities] at second
      refine ⟨c, ?_, ?_⟩
      · simpa using leaves
      · simpa using first.drop second

/-! ## Branches -/

omit [Solver σ]

theorem beginBranch_ok {x : Unit} (h : beginBranch.perform u = (.ok x, v)) :
    v = { u with
      forks := { entry := u.moment (u.bodies.map (·.id)) } :: u.forks
      capabilities := u.capabilities.enterBranch } := by
  simp only [beginBranch] at h
  replace h := live_bind_ok h
  cases h
  rfl

/-- The body taken back to an earlier state. -/
def rewindBody (m : Moment) (b : Body) : Body :=
  match m.bodies.lookup b.id with
  | some s => { b with tracker := b.tracker.restore s }
  | none => b

theorem nextArm_ok {x : Unit} (h : nextArm.perform u = (.ok x, v)) :
    ∃ f rest c, u.forks = f :: rest ∧
      (u.capabilities.restore f.entry.capabilities).nextArm = .ok c ∧
      { u with forks := Fork.finishArm f u :: rest }.Turns v (u.bodies.map (rewindBody f.entry))
        c [] := by
  simp only [nextArm] at h
  replace h := live_bind_ok h
  rw [Action.perform_get_bind] at h
  cases forks : u.forks with
  | nil =>
    rw [forks] at h
    cases h
  | cons f rest =>
    rw [forks, Action.perform_set_bind] at h
    obtain ⟨c, next, rfl⟩ := onCapabilities_ok h
    refine ⟨f, rest, c, rfl, next, ?_⟩
    exact ⟨bodies_mapBodies u (rewindBody f.entry), rfl, rfl, rfl, rfl, rfl, rfl, rfl⟩

/-- The arms that meet at the end of a branch. -/
def meeting (f : Fork) : List Moment :=
  if f.arms.length = 1 then f.arms ++ [f.entry] else f.arms

/-- The body where arms meet. -/
def joinBody (site : Span) (arms : List Moment) (b : Body) : Body :=
  { b with tracker := b.tracker.merge site (arms.filterMap (·.bodies.lookup b.id)) }

theorem endBranch_ok {site : Span} {x : Unit} (h : (endBranch site).perform u = (.ok x, v)) :
    ∃ f rest c, u.forks = f :: rest ∧ u.capabilities.exitBranch site = .ok c ∧
      { u with forks := rest }.Turns v
        (u.bodies.map (joinBody site (meeting (Fork.finishArm f u))))
        (c.merge ((meeting (Fork.finishArm f u)).map Moment.capabilities)) [] := by
  simp only [endBranch] at h
  replace h := live_bind_ok h
  rw [Action.perform_get_bind] at h
  cases forks : u.forks with
  | nil =>
    rw [forks] at h
    cases h
  | cons f rest =>
    rw [forks, Action.perform_set_bind] at h
    obtain ⟨_, _, ended, h⟩ := Action.bind_ok h
    obtain ⟨c, left, rfl⟩ := onCapabilities_ok ended
    cases h
    refine ⟨f, rest, c, rfl, left, ?_⟩
    exact ⟨bodies_mapBodies u (joinBody site _), rfl, rfl, rfl, rfl, rfl, rfl, rfl⟩

end CompilationUnit

end ResourceSafety
