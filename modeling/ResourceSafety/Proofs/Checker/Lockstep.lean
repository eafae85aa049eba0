import ResourceSafety.Logic.BitBlaster
import ResourceSafety.Logic.ClauseLearning
import ResourceSafety.Proofs.Capability.Requests
import ResourceSafety.Proofs.Checker.Journal

/-!
# Units stay in lockstep

A request about a name acts on the bindings that the journal has under it, and on nothing else
(`Leads.access` and what follows it).  Every request, refused ones included, keeps the unit in
lockstep with its journal (`Lockstep.serve`), so a unit is in lockstep after any requests.

A request that fails does so before it changes anything.  The later steps of a request cannot
fail, because the places they act on are in lockstep with the one that was asked first.
-/

namespace ResourceSafety

open Logic (Action Formula Solver Term)

namespace Capability.Context

variable {c : Context}

/-- The context with the record of an ownership access, for a name with a capability. -/
def remarked (c : Context) (y : Option Binding) (a : Ownership.Access) (site : Span) : Context :=
  match CompilationUnit.remarkOf a with
  | some kind => y.elim c fun y => (c.note y y.life kind site).1
  | none => c

theorem level_remarked (n : c.Numbered) {y : Option Binding} (mem : ∀ y' ∈ y, y' ∈ c.table)
    (a : Ownership.Access) (site : Span) : c.Level (c.remarked y a site) := by
  simp only [remarked]
  cases CompilationUnit.remarkOf a with
  | none => exact .refl n
  | some kind =>
    cases y with
    | none => exact .refl n
    | some y' => exact level_note n (mem y' rfl) _ _ _

end Capability.Context

theorem Discharger.enqueue_refused {σ : Type} [Solver σ] {d d' : Discharger σ} {o : Obligation}
    {fault : Fault} (h : (enqueue o).perform d = (.error fault, d')) : d' = d := by
  rw [enqueue, Action.perform_bind, requireStated, Action.perform_get_bind] at h
  cases stated : d.refusal? o with
  | some fault =>
    simp only [stated, Action.perform_throw, Prod.mk.injEq] at h
    exact h.2.symm
  | none =>
    simp only [stated] at h
    cases h

namespace Page.Describes

variable {p : Page} {b : Body} {m : Made}

/-- The innermost scope of the body is the first one on the page. -/
theorem inner (h : p.Describes b.outline) : ∃ s outer, p.scopes = s :: outer ∧
    b.innerNames = s.map Made.declared ∧
    b.tracker.inner.map (fun x => (x.id, x.name)) =
      s.map fun m => (m.binding, m.declared.name) := by
  have names := h.names
  have bindings := h.bindings
  simp only [Body.outline, Ownership.Tracker.cells, Ownership.Tracker.scopes, Cells.outline,
    List.map_cons, List.map_map] at names bindings
  cases scopes : p.scopes with
  | nil => simp [scopes] at bindings
  | cons s outer =>
    simp only [scopes, List.map_cons, List.cons.injEq] at names bindings
    refine ⟨s, outer, rfl, ?_, bindings.1⟩
    cases blocks : b.blocks <;> simp_all [Body.innerNames]

/-- The name is known in the innermost scope of the body exactly if it is in that of its
tracker. -/
theorem any_inner (h : p.Describes b.outline) (name : String) :
    b.tracker.inner.any (·.name == name) = b.innerNames.any (·.name == name) := by
  obtain ⟨s, outer, -, names, bindings⟩ := h.inner
  have places := congrArg (List.any · fun x => x.2 == name) bindings
  simpa [names, List.any_map, Function.comp_def] using places

theorem write (h : p.Describes b.outline) {tracker : Ownership.Tracker}
    (cells : tracker.cells = b.tracker.cells.add ⟨m.binding, m.declared.name, {}⟩) :
    Page.Describes { p with scopes := Journal.write m p.scopes }
      ({ b with tracker }.addName m.declared).outline := by
  have names := h.names
  have bindings := h.bindings
  obtain ⟨s, outer, scopes, -⟩ := h.inner
  rw [scopes] at names bindings
  refine ⟨(CompilationUnit.id_addName _ _).trans h.body, ?_, ?_⟩
  · cases blocks : b.blocks <;>
      simp_all [Body.addName, Body.outline, Journal.write]
  · simp only [Body.outline, CompilationUnit.tracker_addName, cells, scopes, Journal.write]
    cases rows : b.tracker.cells <;>
      simp_all [Body.outline, Cells.outline, Cells.add]

theorem enter (h : p.Describes b.outline) (site : Span) :
    Page.Describes { p with scopes := [] :: p.scopes }
      (CompilationUnit.enterBody site b).outline where
  body := h.body
  names := congrArg (List.cons []) h.names
  bindings := congrArg (List.cons []) h.bindings

/-- With a block open, the innermost scope can be closed everywhere. -/
theorem exit (h : p.Describes b.outline) {k : Block} {blocks : List Block}
    (open_ : b.blocks = k :: blocks) : ∃ tracker, b.tracker.exit = .ok tracker ∧
      Page.Describes { p with scopes := p.scopes.tail } ({ b with tracker, blocks }).outline := by
  have names := congrArg List.tail h.names
  have bindings := congrArg List.tail h.bindings
  have depth := h.length_scopes
  cases outer : b.tracker.outer with
  | nil =>
    have length := congrArg List.length h.bindings
    simp [Body.outline, Cells.outline, Ownership.Tracker.cells, Ownership.Tracker.scopes,
      outer] at length
    simp [Body.outline, open_] at depth
    omega
  | cons s rest =>
    have exits : ∃ tracker, b.tracker.exit = .ok tracker := by
      simp [Ownership.Tracker.exit, outer]
    obtain ⟨tracker, exits⟩ := exits
    refine ⟨tracker, exits, h.body, ?_, ?_⟩
    · simpa [Body.outline, open_, List.map_tail] using names
    · simp only [Body.outline, (Ownership.Tracker.cells_exit exits).1, Cells.outline_tail]
      rw [List.map_tail]
      exact bindings

end Page.Describes

namespace CompilationUnit

variable {σ : Type} {u v : CompilationUnit σ} {j : Journal} {name : String} {p : Page} {m : Made}
  {b : Body} {x : Ownership.Binding} {y : Option Capability.Binding}

theorem perform_requireLive (live : u.finished = false) : requireLive.perform u = (.ok (), u) := by
  simp [requireLive, Action.perform_get_bind, live]

/-- A request to a live unit goes past the first check. -/
theorem perform_live_bind {α : Type} {f : Unit → Action (CompilationUnit σ) α}
    (live : u.finished = false) : (requireLive >>= f).perform u = (f ()).perform u :=
  Action.perform_bind_ok (perform_requireLive live)

theorem perform_onCapabilities
    {f : Capability.Context → Except Fault Capability.Context} {c : Capability.Context}
    (h : f u.capabilities = .ok c) :
    (onCapabilities f).perform u = (.ok (), { u with capabilities := c }) := by
  rw [onCapabilities, Action.perform_get_bind, Action.perform_answer_bind h]
  rfl

/-! ## Requests about a name -/

/-- The units differ in the body `b`, where a binding may take the place of the one with its
number, in the capabilities and in the findings at most. -/
structure Touches (u v : CompilationUnit σ) (b : Body) (x : Option Ownership.Binding)
    (c : Capability.Context) : Prop where
  bodies : v.bodies = x.elim u.bodies fun x => u.bodies.map fun b' =>
    if b'.id = b.id then { b' with tracker := b.tracker.put x } else b'
  capabilities : v.capabilities = c
  rest : { v with
    root := u.root, functions := u.functions, capabilities := u.capabilities,
    violations := u.violations } = u

/-- A body that gets the tracker it has. -/
theorem changeBody_same (n : u.Counted) (mem : b ∈ u.bodies) :
    u.changeBody b.id ({ · with tracker := b.tracker }) = u := by
  have same : (u.bodies.map fun b' =>
      if b'.id = b.id then { b' with tracker := b.tracker } else b') = u.bodies := by
    refine (List.map_congr_left fun b' mem' => ?_).trans (List.map_id u.bodies)
    by_cases same : b'.id = b.id
    · obtain rfl : b' = b := List.inj_on_of_nodup_map n.distinct mem' mem same
      simp
    · simp [same]
  simp only [bodies, List.map_append, List.map_cons, List.map_nil] at same
  obtain ⟨functions, root⟩ := List.append_inj' same rfl
  simp only [changeBody, mapBodies, functions, List.cons.inj root]

theorem Leads.mem (h : u.Leads name p m b x y) : b ∈ u.bodies := mem_bodies_of_locate? h.located

theorem Leads.locate (h : u.Leads name p m b x y) : u.locate name = .ok (b, m.declared) := by
  rw [CompilationUnit.locate, h.located]

theorem Leads.lookup (h : u.Leads name p m b x y) : b.tracker.lookup name = .ok x := by
  rw [Ownership.Tracker.lookup, h.bound]

theorem Leads.mem_table (h : u.Leads name p m b x y) :
    ∀ y' ∈ y, y' ∈ u.capabilities.table := fun y' mem =>
  Capability.Context.mem_table_of_find? (h.held y' mem)

/-- The remark on an access is about the capability that the declaration made. -/
theorem Leads.remark (h : u.Leads name p m b x y) {v : CompilationUnit σ}
    (same : v.capabilities = u.capabilities) (a : Ownership.Access) (site : Span) :
    (remark m.declared a site).perform v =
      (.ok (), { v with capabilities := u.capabilities.remarked y a site }) := by
  rw [CompilationUnit.remark, Capability.Context.remarked, ← same]
  cases remarkOf a with
  | none => rfl
  | some kind =>
    cases y with
    | none =>
      have lacks : m.declared.mode.hasCapability = false := h.marked.symm
      simp [lacks]
    | some y' =>
      have has : m.declared.mode.hasCapability = true := h.marked.symm
      have found := h.held y' rfl
      rw [← same, ← h.named] at found
      simp only [has, if_true]
      exact perform_onCapabilities (Capability.Context.remark_eq found kind site)

/-- An access never fails.  It is to the binding that the name leads to: this refuses the access,
or it gets the record after the access, and the capability of the name gets the remark. -/
theorem Leads.access (h : u.Leads name p m b x y) (n : u.Counted) (live : u.finished = false)
    (a : Ownership.Access) (site : Span) :
    match x.record.refusal? name site a with
    | some w => (access a name site).perform u = (.ok (some w), u.collect w)
    | none => ∃ v, (access a name site).perform u = (.ok none, v) ∧
        u.Touches v b (some (x.advance (x.record.after site a) (.ofAccess a) site))
          (u.capabilities.remarked y a site) := by
  rw [CompilationUnit.access, perform_live_bind live, Action.perform_get_bind,
    Action.perform_answer_bind h.locate]
  dsimp only
  cases refused : x.record.refusal? name site a with
  | some w =>
    have answer : b.tracker.access a name site = .ok (some w, b.tracker) := by
      simp [Ownership.Tracker.access, h.lookup, bind, Except.bind, refused, pure, Except.pure]
    rw [Action.perform_answer_bind answer, Action.perform_modify_bind, changeBody_same n h.mem]
    rfl
  | none =>
    have answer : b.tracker.access a name site = .ok (none,
        b.tracker.put (x.advance (x.record.after site a) (.ofAccess a) site)) := by
      simp [Ownership.Tracker.access, h.lookup, bind, Except.bind, refused, pure, Except.pure]
    rw [Action.perform_answer_bind answer, Action.perform_modify_bind]
    dsimp only
    rw [Action.perform_bind_ok (h.remark (v := u.changeBody b.id _) rfl a site)]
    exact ⟨_, rfl, bodies_mapBodies u _, rfl, rfl⟩

/-- A release is of the binding that the name leads to, and it only fails where nothing is
borrowed. -/
theorem Leads.release (h : u.Leads name p m b x y) (live : u.finished = false) (site : Span) :
    match x.record.release? with
    | none => (release name site).perform u = (.error (.noActiveBorrow name), u)
    | some r => ∃ v, (release name site).perform u = (.ok (), v) ∧
        u.Touches v b (some (x.advance r .release site)) u.capabilities := by
  rw [CompilationUnit.release, perform_live_bind live, Action.perform_get_bind,
    Action.perform_answer_bind h.locate]
  dsimp only
  cases ended : x.record.release? with
  | none =>
    have answer : b.tracker.release name site = .error (.noActiveBorrow name) := by
      simp [Ownership.Tracker.release, h.lookup, bind, Except.bind, ended, throw, throwThe,
        MonadExceptOf.throw]
    exact Action.perform_fault_bind answer
  | some r =>
    have answer : b.tracker.release name site =
        .ok (b.tracker.put (x.advance r .release site)) := by
      simp [Ownership.Tracker.release, h.lookup, bind, Except.bind, ended, pure, Except.pure]
    rw [Action.perform_answer_bind answer]
    exact ⟨_, rfl, bodies_mapBodies u _, rfl, rfl⟩

/-- The request is an access to the capability `y`.  Without a capability nothing happens. -/
def Aims (u : CompilationUnit σ) (a : Action (CompilationUnit σ) (Option Violation)) (b : Body)
    (y : Option Capability.Binding) (step : Capability.Lifecycle → Capability.Lifecycle)
    (kind : Capability.AccessKind) (site : Span) : Prop :=
  match y with
  | none => a.perform u = (.ok none, u)
  | some y => ∃ w c v, a.perform u = (.ok w, v) ∧ u.Touches v b none c ∧
      u.capabilities.Acts y step kind site w c

/-- A capability access never fails.  It is to the capability that the name leads to. -/
theorem Leads.capabilityAccess (h : u.Leads name p m b x y) (live : u.finished = false)
    {op : Capability.Context → String → Span →
      Except Fault (Option Violation × Capability.Context)}
    {step : Span → Capability.Lifecycle → Capability.Lifecycle} {kind : Capability.AccessKind}
    (accesses : Capability.Context.Accesses op step kind) (site : Span) :
    u.Aims (capabilityAccess op name site) b y (step site) kind site := by
  unfold Aims
  rw [CompilationUnit.capabilityAccess, perform_live_bind live, Action.perform_get_bind,
    Action.perform_answer_bind h.locate]
  dsimp only
  cases y with
  | none =>
    have lacks : m.declared.mode.hasCapability = false := h.marked.symm
    simp only [lacks]
    rfl
  | some y' =>
    have has : m.declared.mode.hasCapability = true := h.marked.symm
    obtain ⟨w, c, answer, acts⟩ := accesses.acts site (h.held y' rfl)
    simp only [has, Bool.not_true, Bool.false_eq_true, if_false]
    rw [Action.perform_get_bind, Action.perform_answer_bind answer, Action.perform_modify_bind]
    cases w with
    | none => exact ⟨none, c, _, rfl, ⟨rfl, rfl, rfl⟩, acts⟩
    | some w =>
      refine ⟨some w, c, _, rfl, ?_, acts⟩
      show u.Touches (collectAll { u with capabilities := c } [w]) b none c
      rw [collectAll_eq]
      exact ⟨rfl, rfl, rfl⟩

/-! ## Lockstep is kept -/

theorem run_andThen {first second : StateM (CompilationUnit σ) Sweep} {w : CompilationUnit σ}
    {early late : List Violation} {fault : Option Fault}
    (h : first.run u = ((early, none), w)) (h' : second.run w = ((late, fault), v)) :
    (Sweep.andThen first second).run u = ((early ++ late, fault), v) := by
  rw [Sweep.andThen, StateT.run_bind, h]
  show StateT.run (second >>= _) w = _
  rw [StateT.run_bind, h']
  rfl

theorem run_andThen_fault {first second : StateM (CompilationUnit σ) Sweep} {fault : Fault}
    {early : List Violation} (h : first.run u = ((early, some fault), v)) :
    (Sweep.andThen first second).run u = ((early, some fault), v) := by
  rw [Sweep.andThen, StateT.run_bind, h]
  rfl

theorem Lockstep.keep (h : u.Lockstep j)
    (bodies : v.bodies.map Body.outline = u.bodies.map Body.outline)
    (trackers : ∀ b ∈ v.bodies, b.tracker.Numbered) (next : v.nextBody = u.nextBody)
    (capabilities : v.capabilities.Numbered)
    (held : v.capabilities.cells.outline = u.capabilities.cells.outline)
    (branches : v.capabilities.branches.length = v.forks.length) (live : v.finished = false) :
    v.Lockstep j where
  distinct := by rw [map_id_of_outline bodies]; exact h.distinct
  below := by
    intro b mem
    have known : b.id ∈ u.bodies.map (·.id) :=
      map_id_of_outline bodies ▸ List.mem_map_of_mem mem
    obtain ⟨b', mem', same⟩ := List.mem_map.mp known
    rw [← same, next]
    exact h.below b' mem'
  trackers := trackers
  capabilities := capabilities
  pages := by rw [outline, bodies]; exact h.pages
  held := held.trans h.held
  marked := h.marked
  branches := branches
  live := live

/-- Findings and obligations are not in the journal. -/
theorem Lockstep.aside (h : u.Lockstep j) (d : Discharger σ) (found : List Violation) :
    ({ u with discharger := d }.collectAll found).Lockstep j := by
  rw [collectAll_eq]
  exact h.keep rfl h.trackers rfl h.capabilities rfl h.branches h.live

theorem Lockstep.level (h : u.Lockstep j) {c : Capability.Context}
    (level : u.capabilities.Level c) : Lockstep { u with capabilities := c } j :=
  h.keep rfl h.trackers rfl level.numbered level.held (level.branches.trans h.branches) h.live

theorem Lockstep.touch (h : u.Lockstep j) (leads : u.Leads name p m b x y)
    {x' : Option Ownership.Binding} (put : ∀ z ∈ x', ∃ r kind site, z = x.advance r kind site)
    {c : Capability.Context} (touches : u.Touches v b x' c) (level : u.capabilities.Level c) :
    v.Lockstep j := by
  have bodies : v.bodies.map Body.outline = u.bodies.map Body.outline ∧
      ∀ b ∈ v.bodies, b.tracker.Numbered := by
    rw [touches.bodies]
    cases x' with
    | none => exact ⟨rfl, h.trackers⟩
    | some z =>
      obtain ⟨r, kind, site, rfl⟩ := put z rfl
      refine outline_changed h.toCounted leads.mem ?_ rfl
      rw [Ownership.Tracker.cells_put (h.trackers b leads.mem) leads.bound]
      exact Cells.outline_adjust _ _
  have rest : v.forks = u.forks ∧ v.nextBody = u.nextBody ∧ v.finished = u.finished := by
    rw [← touches.rest]
    exact ⟨rfl, rfl, rfl⟩
  obtain ⟨forks, next, finished⟩ := rest
  refine h.keep bodies.1 bodies.2 next ?_ ?_ ?_ (finished.trans h.live)
  · rw [touches.capabilities]
    exact level.numbered
  · rw [touches.capabilities]
    exact level.held
  · rw [touches.capabilities, forks]
    exact level.branches.trans h.branches

/-! ## Declarations and scopes -/

theorem Lockstep.exists_page (h : u.Lockstep j) : ∃ p rest, j = p :: rest ∧
    p.Describes u.current.outline ∧
    List.Forall₂ Page.Describes rest (u.bodies.tail.map Body.outline) := by
  have pages := h.pages
  rw [outline_eq_cons] at pages
  cases pages with
  | cons first others => exact ⟨_, _, rfl, first, others⟩

theorem Lockstep.exists_frame (h : u.Lockstep j) : ∃ f rest, u.capabilities.frames = f :: rest := by
  have length := h.frames
  cases frames : u.capabilities.frames with
  | cons f rest => exact ⟨f, rest, rfl⟩
  | nil =>
    rw [frames, scopeCount, bodies_eq_cons u, List.length_nil, List.length_cons] at length
    omega

/-- A capability is new in the innermost frame if the name is new in the innermost scope. -/
theorem Lockstep.exists_define (h : u.Lockstep j)
    (fresh : u.current.innerNames.any (·.name == name) = false) (kind : CapabilityKind)
    (site : Span) : ∃ c, u.capabilities.define name kind site = .ok c := by
  obtain ⟨f, frames, open_⟩ := h.exists_frame
  obtain ⟨p, rest, rfl, describes, -⟩ := h.exists_page
  obtain ⟨s, outer, scopes, names, -⟩ := describes.inner
  have held := congrArg List.head? h.held
  simp only [outline, Cells.outline, Capability.Context.cells, open_, List.map_cons,
    List.head?_cons, Capability.Context.cells_inFrame, Journal.scopes, List.flatMap_cons, scopes,
    List.cons_append, Option.some.injEq] at held
  have unknown : (u.capabilities.inFrame f).any (·.name == name) = false := by
    have places := congrArg (List.any · fun x => x.2 == name) held
    simp only [List.map_map, List.any_map, List.any_filterMap] at places
    refine places.trans ?_
    rw [List.any_eq_false]
    intro m mem
    rw [names, List.any_map, List.any_eq_false] at fresh
    have other := fresh m mem
    cases capability : m.capability <;> simp_all [Made.held]
  simp [Capability.Context.define, open_, unknown]

/-- A name that is new in the innermost scope can be declared. -/
theorem Lockstep.exists_declare (h : u.Lockstep j)
    (fresh : u.current.innerNames.any (·.name == name) = false) (type : Option Ty) (site : Span) :
    ∃ d v, (declare name type site).perform u = (.ok d, v) := by
  obtain ⟨p, rest, rfl, describes, -⟩ := h.exists_page
  have unknown := (describes.any_inner name).trans fresh
  have defined : ∃ tracker, u.current.tracker.define name site = .ok tracker := by
    simp [Ownership.Tracker.define, unknown]
  obtain ⟨tracker, defined⟩ := defined
  rw [declare, perform_live_bind h.live, Action.perform_get_bind, if_neg (by simp [fresh])]
  dsimp only
  rw [Action.perform_answer_bind defined, Action.perform_modify_bind]
  cases ((type.map u.registry.mode).getD {}).capability with
  | none => exact ⟨_, _, rfl⟩
  | some kind =>
    have same := (turns_changeCurrent (bodies_eq_cons u) fun b => { b with tracker }).capabilities
    obtain ⟨c, held⟩ := h.exists_define fresh kind site
    rw [← same] at held
    exact ⟨_, _, Action.perform_bind_ok (perform_onCapabilities held)⟩

theorem Lockstep.declared (h : u.Lockstep j) {type : Option Ty} {site : Span} {d : Declared}
    (run : (declare name type site).perform u = (.ok d, v)) :
    v.Lockstep (u.noted j (.declare name type site)) := by
  obtain ⟨tracker, c, defined, held, turns⟩ := declare_ok run
  obtain ⟨p, rest, rfl, describes, others⟩ := h.exists_page
  obtain ⟨s, outer, scopes, -, -⟩ := describes.inner
  obtain ⟨-, -, cells⟩ := held_declare h.capabilities held
  have written : Journal.scopes (u.noted (p :: rest) (.declare name type site)) =
      (s ++ [u.made name type site]) :: (outer ++ Journal.scopes rest) := by
    simp [noted, Journal.onPage, Journal.scopes, Journal.write, scopes]
  have before : Journal.scopes (p :: rest) = s :: (outer ++ Journal.scopes rest) := by
    simp [Journal.scopes, scopes]
  have marked : (u.made name type site).capability.isSome =
      (u.made name type site).declared.mode.hasCapability := by
    simp only [made]
    split
    next has => exact has.symm
    next lacks => exact (Bool.eq_false_iff.mpr lacks).symm
  have places : u.capabilities.cells.outline = _ := h.held
  rw [before, List.map_cons] at places
  refine ⟨counted_declare h.toCounted run, ?_, ?_, ?_, ?_, turns.finished.trans h.live⟩
  · rw [turns.outline_of]
    exact .cons (describes.write (m := u.made name type site)
      (Ownership.Tracker.cells_define defined).1) others
  · rw [turns.outline_of, written]
    simp only [List.map_cons, List.filterMap_append]
    have own : (u.made name type site).held = if (u.declared name type site).mode.hasCapability
        then some (u.capabilities.faces.length, name) else none := by
      simp only [made, Made.held, Capability.Context.faces, List.length_map]
      split <;> rfl
    rw [cells]
    cases rows : u.capabilities.cells with
    | nil => simp [rows, Cells.outline] at places
    | cons inner around =>
      simp only [rows, Cells.outline, List.map_cons, List.cons.injEq] at places
      cases has : (u.declared name type site).mode.hasCapability <;>
        simp [Cells.outline, Cells.add, own, has, places.1, places.2]
  · rw [written]
    intro t mem m' mem'
    obtain rfl | mem := List.mem_cons.mp mem
    · obtain old | new := List.mem_append.mp mem'
      · exact h.marked s (before ▸ List.mem_cons_self) m' old
      · rw [List.mem_singleton.mp new]
        exact marked
    · exact h.marked t (before ▸ List.mem_cons_of_mem _ mem) m' mem'
  · rw [turns.capabilities, turns.forks, ← h.branches]
    split at held
    · rw [Capability.Context.branches_define held]
    · rw [held]

/-- An empty scope is opened, on the innermost page or on a new one. -/
theorem Lockstep.opens (h : u.Lockstep j) {k : Journal} (next : Nat) {bodies : List Body}
    (turns : { u with nextBody := next }.Turns v bodies u.capabilities.enter [])
    (counted : v.Counted) (pages : List.Forall₂ Page.Describes k (bodies.map Body.outline))
    (scopes : k.scopes = [] :: j.scopes) : v.Lockstep k := by
  refine ⟨counted, ?_, ?_, ?_, ?_, turns.finished.trans h.live⟩
  · rw [turns.outline_of]
    exact pages
  · rw [turns.outline_of, Capability.Context.cells_enter h.capabilities, scopes]
    exact congrArg (List.cons []) h.held
  · rw [scopes]
    intro s mem m mem'
    obtain rfl | mem := List.mem_cons.mp mem
    · cases mem'
    · exact h.marked s mem m mem'
  · rw [turns.capabilities, turns.forks]
    exact h.branches

theorem Lockstep.enterBlock (h : u.Lockstep j) (site : Span) : ∃ v,
    (enterBlock site).perform u = (.ok (), v) ∧ v.Lockstep (u.noted j (.enterBlock site)) := by
  have run := perform_live_bind (f := fun _ => modify fun u : CompilationUnit σ =>
    { u.changeCurrent (enterBody site) with capabilities := u.capabilities.enter }) h.live
  obtain ⟨p, rest, rfl, describes, others⟩ := h.exists_page
  exact ⟨_, run, h.opens u.nextBody (enterBlock_ok run)
    (counted_enterBlock h.toCounted run) (.cons (describes.enter site) others) rfl⟩

/-- An open block can be closed. -/
theorem Lockstep.closeBlock (h : u.Lockstep j) (site : Span) {k : Block} {blocks : List Block}
    (open_ : u.current.blocks = k :: blocks) : ∃ found v,
      (closeBlock site).run u = ((found, none), v) ∧ v.Lockstep (j.onPage List.tail) ∧
      v.current.blocks = blocks := by
  obtain ⟨f, frames, frame⟩ := h.exists_frame
  obtain ⟨p, rest, rfl, describes, others⟩ := h.exists_page
  obtain ⟨tracker, exits, after⟩ := describes.exit open_
  have run : ∃ found v, (CompilationUnit.closeBlock site).run u = ((found, none), v) := by
    rw [CompilationUnit.closeBlock, run_get_bind]
    simp only [open_, exits]
    have same := (turns_changeCurrent (bodies_eq_cons u) ({ · with tracker, blocks })).capabilities
    exact exists_leaveFrame (by rw [same]; exact frame) site
  obtain ⟨found, v, run⟩ := run
  obtain ⟨k', blocks', tracker', c, open', exits', leaves, turns⟩ := closeBlock_ok run
  cases open_.symm.trans open'
  cases exits.symm.trans exits'
  have first : v.current = { u.current with tracker, blocks } := by
    have bodies := turns.bodies
    rw [bodies_eq_cons v, List.cons.injEq] at bodies
    exact bodies.1
  obtain ⟨s, outer, scopes, -⟩ := describes.inner
  have before : Journal.scopes (p :: rest) = s :: (outer ++ Journal.scopes rest) := by
    simp [Journal.scopes, scopes]
  have later : Journal.scopes (Journal.onPage List.tail (p :: rest)) =
      outer ++ Journal.scopes rest := by
    simp [Journal.onPage, Journal.scopes, scopes]
  refine ⟨found, v, run, ⟨turns.counted h.toCounted ?_ ?_ (leaves.numbered h.capabilities),
    ?_, ?_, ?_, ?_, turns.finished.trans h.live⟩, by rw [first]⟩
  · rw [bodies_eq_cons u]
    exact List.Sublist.refl _
  · intro b mem
    cases mem with
    | head => exact Ownership.Tracker.numbered_exit (h.trackers _ u.current_mem) exits
    | tail _ mem => exact h.trackers b (List.mem_of_mem_tail mem)
  · rw [turns.outline_of]
    exact .cons after others
  · rw [turns.outline_of, later]
    have held := congrArg List.tail h.held
    rw [before] at held
    simp only [leaves.cells, Cells.outline_tail]
    exact held
  · rw [later]
    exact fun t mem => h.marked t (before ▸ List.mem_cons_of_mem _ mem)
  · rw [turns.capabilities, turns.forks, ← h.branches, leaves.branches]

/-- All blocks of a body can be closed. -/
theorem Lockstep.closeBlocks (h : u.Lockstep j) (site : Span) {blocks : List Block}
    (open_ : u.current.blocks = blocks) : ∃ found v k,
      (closeBlocks site blocks).run u = ((found, none), v) ∧ v.Lockstep k ∧
      v.current.blocks = [] ∧ k.length = j.length ∧ k.tail = j.tail := by
  induction blocks generalizing u j with
  | nil => exact ⟨[], u, j, rfl, h, open_, rfl, rfl⟩
  | cons b rest ih =>
    obtain ⟨early, w, first, lock, left⟩ := h.closeBlock site open_
    obtain ⟨late, v, k, others, lock', closed, length, tail⟩ := ih lock left
    refine ⟨early ++ late, v, k, run_andThen first others, lock', closed, ?_, ?_⟩
    · rw [length]
      cases j <;> rfl
    · rw [tail]
      cases j <;> rfl

theorem Lockstep.beginFunction (h : u.Lockstep j) (name : String) (site : Span) : ∃ v,
    (beginFunction name site).perform u = (.ok (), v) ∧
      v.Lockstep (u.noted j (.beginFunction name site)) := by
  have run := perform_live_bind (f := fun _ => modify fun u : CompilationUnit σ =>
    { u with
      capabilities := u.capabilities.enter
      functions := u.newBody name site :: u.functions
      nextBody := u.nextBody + 1 }) h.live
  exact ⟨_, run, h.opens _ (beginFunction_ok run) (counted_beginFunction h.toCounted run)
    (.cons ⟨rfl, rfl, rfl⟩ h.pages) rfl⟩

/-- A function without open blocks can be closed. -/
theorem Lockstep.leaveFunction (h : u.Lockstep j) (site : Span) (closed : u.current.blocks = [])
    (inside : u.functions ≠ []) : ∃ found v,
      (Sweep.andThen (leaveFrame site) (dropFunction site)).run u = ((found, none), v) ∧
      v.Lockstep j.tail := by
  obtain ⟨f, frames, frame⟩ := h.exists_frame
  obtain ⟨p, rest, rfl, describes, others⟩ := h.exists_page
  obtain ⟨found, w, left⟩ := exists_leaveFrame frame site
  obtain ⟨c, leaves, turns⟩ := leaveFrame_ok left
  have inside' : w.functions ≠ [] := by
    have length := congrArg List.length turns.bodies
    rw [length_functions, length_functions] at length
    rw [← List.length_pos_iff] at inside ⊢
    omega
  have drop : (dropFunction site).run w = (([], none), ((dropFunction site).run w).2) := rfl
  obtain ⟨-, second⟩ := dropFunction_ok inside' drop
  rw [turns.bodies, turns.capabilities] at second
  have all := turns.drop second
  have single : ∃ s, p.scopes = [s] := by
    have length := describes.length_scopes
    simp only [Body.outline, closed, List.length_nil] at length
    exact List.length_eq_one_iff.mp length
  obtain ⟨s, scopes⟩ := single
  have before : Journal.scopes (p :: rest) = s :: Journal.scopes rest := by
    simp [Journal.scopes, scopes]
  have sub := List.tail_sublist u.bodies
  refine ⟨found ++ [], _, run_andThen left drop, all.counted h.toCounted (sub.map _)
    (fun b mem => h.trackers b (sub.subset mem)) (leaves.numbered h.capabilities), ?_, ?_, ?_, ?_,
    all.finished.trans h.live⟩
  · rw [all.outline_of]
    exact others
  · rw [all.outline_of, List.tail_cons]
    have held := congrArg List.tail h.held
    rw [before] at held
    simp only [leaves.cells, Cells.outline_tail]
    exact held
  · exact fun t mem => h.marked t (before ▸ List.mem_cons_of_mem _ mem)
  · rw [all.capabilities, all.forks, ← h.branches, leaves.branches]

/-- Only the fault of an obligation that waits keeps a function from being closed. -/
theorem Lockstep.endFunction [Solver σ] (h : u.Lockstep j) (gaveUp : Nat → Bool) (site : Span)
    (inside : u.functions ≠ []) : ∃ found fault v,
      (endFunction gaveUp site).run u = ((found, fault), v) ∧
      v.Lockstep (if fault.isSome then j else j.tail) ∧
      ((flushQueue gaveUp).run u).1.2 = fault := by
  cases functions : u.functions with
  | nil => exact absurd functions inside
  | cons f others =>
    rw [CompilationUnit.endFunction, run_get_bind, if_neg (by simp [h.live])]
    simp only [functions]
    rcases flush : (Discharger.flush gaveUp).run u.discharger with ⟨⟨early, fault⟩, d⟩
    have lock := h.aside d early
    have flushed : (flushQueue gaveUp).run u =
        ((early, fault), { u with discharger := d }.collectAll early) := by
      rw [flushQueue, run_get_bind]
      simp only [flush]
      rfl
    cases fault with
    | some fault => exact ⟨_, _, _, run_andThen_fault flushed, lock, by rw [flushed]⟩
    | none =>
      have same := collectAll_eq { u with discharger := d } early
      have current : ({ u with discharger := d }.collectAll early).current.blocks = f.blocks := by
        rw [same]
        simp [current, functions]
      obtain ⟨late, w, k, closed, lock', none, length, tail⟩ := lock.closeBlocks site current
      have inside' : w.functions ≠ [] := by
        have depth := h.pages.length_eq
        have depth' := lock'.pages.length_eq
        simp only [outline, List.length_map, length_functions, functions, length,
          List.length_cons] at depth depth'
        rw [← List.length_pos_iff]
        omega
      obtain ⟨last, v, left, lock''⟩ := lock'.leaveFunction site none inside'
      exact ⟨_, _, v, run_andThen flushed (run_andThen closed left), tail ▸ lock'', by rw [flushed]⟩

/-! ## Branches -/

theorem Lockstep.beginBranch (h : u.Lockstep j) : ∃ v,
    beginBranch.perform u = (.ok (), v) ∧ v.Lockstep j := by
  have quiet := Capability.Context.quiet_enterBranch u.capabilities
  refine ⟨_, perform_live_bind h.live,
    h.keep rfl h.trackers rfl (quiet.numbered h.capabilities)
      (congrArg Cells.outline quiet.cells) ?_ h.live⟩
  simp [Capability.Context.enterBranch, h.branches]

/-- All bodies change without their outlines. -/
theorem Lockstep.map (h : u.Lockstep j) (forks : List Fork) {f : Body → Body}
    {c : Capability.Context} (turns : { u with forks }.Turns v (u.bodies.map f) c [])
    (outline : ∀ b, (f b).outline = b.outline)
    (trackers : ∀ b : Body, b.tracker.Numbered → (f b).tracker.Numbered) (capabilities : c.Numbered)
    (held : c.cells.outline = u.capabilities.cells.outline)
    (branches : c.branches.length = forks.length) : v.Lockstep j := by
  refine h.keep ?_ ?_ turns.nextBody ?_ ?_ ?_ (turns.finished.trans h.live)
  · rw [turns.bodies, List.map_map]
    exact List.map_congr_left fun b _ => outline b
  · rw [turns.bodies]
    intro b mem
    obtain ⟨b', mem', rfl⟩ := List.mem_map.mp mem
    exact trackers b' (h.trackers b' mem')
  · rw [turns.capabilities]
    exact capabilities
  · rw [turns.capabilities]
    exact held
  · rw [turns.capabilities, turns.forks]
    exact branches

theorem Lockstep.nextArm (h : u.Lockstep j) {f : Fork} {rest : List Fork}
    (forks : u.forks = f :: rest) : ∃ v, nextArm.perform u = (.ok (), v) ∧ v.Lockstep j := by
  have adjusts := Capability.Context.adjusts_restore u.capabilities f.entry.capabilities
  have restored := adjusts.level h.capabilities rfl
  have inside : (u.capabilities.restore f.entry.capabilities).branches ≠ [] := by
    rw [← List.length_pos_iff, restored.branches, h.branches, forks]
    exact Nat.succ_pos _
  obtain ⟨c, next, level⟩ := Capability.Context.exists_nextArm restored.numbered inside
  have run : CompilationUnit.nextArm.perform u =
      (.ok (), { { u with forks := Fork.finishArm f u :: rest }.rewind f.entry with
        capabilities := c }) := by
    rw [CompilationUnit.nextArm, perform_live_bind h.live, Action.perform_get_bind]
    simp only [forks]
    rw [Action.perform_set_bind]
    exact perform_onCapabilities next
  refine ⟨_, run, h.map (Fork.finishArm f u :: rest) (f := rewindBody f.entry) (c := c)
    ⟨bodies_mapBodies u _, rfl, rfl, rfl, rfl, rfl, rfl, rfl⟩ (outline_rewindBody f.entry)
    (fun b => numbered_rewindBody f.entry) level.numbered (level.held.trans restored.held) ?_⟩
  rw [level.branches, restored.branches, h.branches, forks]
  rfl

theorem Lockstep.endBranch (h : u.Lockstep j) (site : Span) {f : Fork} {rest : List Fork}
    (forks : u.forks = f :: rest) : ∃ v, (endBranch site).perform u = (.ok (), v) ∧
      v.Lockstep j := by
  have inside : u.capabilities.branches ≠ [] := by
    rw [← List.length_pos_iff, h.branches, forks]
    exact Nat.succ_pos _
  obtain ⟨c, left, numbered, held, length⟩ :=
    Capability.Context.exists_exitBranch h.capabilities inside site
  obtain ⟨merged, -, same⟩ := Capability.Context.outline_merge numbered
    ((meeting (Fork.finishArm f u)).map Moment.capabilities)
  have run : (CompilationUnit.endBranch site).perform u = (.ok (),
      joinArms { u with forks := rest, capabilities := c } site
        (meeting (Fork.finishArm f u))) := by
    rw [CompilationUnit.endBranch, perform_live_bind h.live, Action.perform_get_bind]
    simp only [forks]
    rw [Action.perform_set_bind, Action.perform_bind_ok (perform_onCapabilities left)]
    rfl
  refine ⟨_, run, h.map rest (f := joinBody site (meeting (Fork.finishArm f u)))
    (c := c.merge ((meeting (Fork.finishArm f u)).map Moment.capabilities))
    ⟨bodies_mapBodies u _, rfl, rfl, rfl, rfl, rfl, rfl, rfl⟩ (outline_joinBody site _)
    (fun b => numbered_joinBody site _) merged (same.trans held) ?_⟩
  have branches : (c.merge ((meeting (Fork.finishArm f u)).map Moment.capabilities)).branches =
      c.branches := by
    cases (meeting (Fork.finishArm f u)).map Moment.capabilities <;> rfl
  rw [h.branches, forks, List.length_cons] at length
  rw [branches]
  omega

/-! ## All requests -/

/-- What comes of a request.  When it succeeds, the journal goes on with it.  When it fails, the
journal stays, and the unit stays too unless the request talks to the solver. -/
def Served [Solver σ] (u : CompilationUnit σ) (j : Journal) (r : Request) : Prop :=
  (∃ v, u.serve r = (none, v) ∧ v.Lockstep (u.noted j r)) ∨
    ∃ fault v, u.serve r = (some fault, v) ∧ v.Lockstep j ∧ (r.isSolving = false → v = u)

theorem outcome_ok {α : Type} {a : Action (CompilationUnit σ) α} {x : α}
    (h : a.perform u = (.ok x, v)) : u.outcome a = (none, v) := by
  rw [outcome, h]

theorem outcome_error {α : Type} {a : Action (CompilationUnit σ) α} {fault : Fault}
    (h : a.perform u = (.error fault, v)) : u.outcome a = (some fault, v) := by
  rw [outcome, h]

theorem swept_eq {a : StateM (CompilationUnit σ) Sweep} {fault : Option Fault}
    (found : List Violation) (h : a.run u = ((found, fault), v)) : u.swept a = (fault, v) := by
  rw [swept, h]

/-- A request that fails before it changes anything. -/
theorem Lockstep.refused [Solver σ] (h : u.Lockstep j) {r : Request} (fault : Fault)
    (run : u.serve r = (some fault, u)) : u.Served j r :=
  .inr ⟨fault, u, run, h, fun _ => rfl⟩

theorem Lockstep.missing (h : u.Lockstep j) (none : j.find? name = none) :
    u.locate name = .error (.unknownBinding name) := by
  rw [locate, h.find?_eq_none.mp none]

/-- An access to a visible name keeps lockstep. -/
theorem Lockstep.access (h : u.Lockstep j) (found : j.find? name = some (p, m))
    (a : Ownership.Access) (site : Span) :
    ∃ w v, (access a name site).perform u = (.ok w, v) ∧ v.Lockstep j := by
  obtain ⟨b, x, y, leads⟩ := h.leads found
  have run := leads.access h.toCounted h.live a site
  split at run
  next w _ => exact ⟨_, _, run, h.aside u.discharger [w]⟩
  next =>
    obtain ⟨v, run, touches⟩ := run
    refine ⟨_, v, run, h.touch leads (fun z mem => ?_) touches
      (Capability.Context.level_remarked h.capabilities leads.mem_table a site)⟩
    exact ⟨_, _, _, (Option.mem_some_iff.mp mem).symm⟩

theorem Lockstep.serve_access [Solver σ] (h : u.Lockstep j) (a : Ownership.Access) (name : String)
    (site : Span) : u.Served j (.access a name site) := by
  cases found : j.find? name with
  | none =>
    refine h.refused (.unknownBinding name) (outcome_error ?_)
    rw [CompilationUnit.access, perform_live_bind h.live, Action.perform_get_bind,
      Action.perform_fault_bind (h.missing found)]
  | some pm =>
    obtain ⟨w, v, run, lock⟩ := h.access found a site
    exact .inl ⟨v, outcome_ok run, lock⟩

theorem Lockstep.serve_release [Solver σ] (h : u.Lockstep j) (name : String) (site : Span) :
    u.Served j (.release name site) := by
  cases found : j.find? name with
  | none =>
    refine h.refused (.unknownBinding name) (outcome_error ?_)
    rw [release, perform_live_bind h.live, Action.perform_get_bind,
      Action.perform_fault_bind (h.missing found)]
  | some pm =>
    obtain ⟨b, x, y, leads⟩ := h.leads found
    have run := leads.release h.live site
    split at run
    next => exact h.refused _ (outcome_error run)
    next =>
      obtain ⟨v, run, touches⟩ := run
      refine .inl ⟨v, outcome_ok run, h.touch leads (fun z mem => ?_) touches
        (.refl h.capabilities)⟩
      exact ⟨_, _, _, (Option.mem_some_iff.mp mem).symm⟩

/-- An access to the capability of a visible name keeps lockstep. -/
theorem Lockstep.capabilityAccess (h : u.Lockstep j) (found : j.find? name = some (p, m))
    {op : Capability.Context → String → Span →
      Except Fault (Option Violation × Capability.Context)}
    {step : Span → Capability.Lifecycle → Capability.Lifecycle} {kind : Capability.AccessKind}
    (accesses : Capability.Context.Accesses op step kind) (site : Span) :
    ∃ w v, (capabilityAccess op name site).perform u = (.ok w, v) ∧ v.Lockstep j := by
  obtain ⟨b, x, y, leads⟩ := h.leads found
  have run := leads.capabilityAccess h.live accesses site
  cases y with
  | none => exact ⟨_, u, run, h⟩
  | some y' =>
    obtain ⟨w, c, v, run, touches, acts⟩ := run
    exact ⟨w, v, run, h.touch leads (fun z mem => absurd mem (Option.not_mem_none z)) touches
      (acts.level h.capabilities (leads.mem_table y' rfl))⟩

theorem Lockstep.serve_capabilityAccess [Solver σ] (h : u.Lockstep j)
    {op : Capability.Context → String → Span →
      Except Fault (Option Violation × Capability.Context)}
    {step : Span → Capability.Lifecycle → Capability.Lifecycle} {kind : Capability.AccessKind}
    (accesses : Capability.Context.Accesses op step kind) (name : String) (site : Span)
    {r : Request} (serve : u.serve r = u.outcome (CompilationUnit.capabilityAccess op name site))
    (noted : u.noted j r = j) : u.Served j r := by
  cases found : j.find? name with
  | none =>
    refine h.refused (.unknownBinding name) (serve.trans (outcome_error ?_))
    rw [CompilationUnit.capabilityAccess, perform_live_bind h.live, Action.perform_get_bind,
      Action.perform_fault_bind (h.missing found)]
  | some pm =>
    obtain ⟨w, v, run, lock⟩ := h.capabilityAccess found accesses site
    exact .inl ⟨v, serve.trans (outcome_ok run), noted.symm ▸ lock⟩

/-- A request to the discharger leaves the scopes alone. -/
theorem Lockstep.perform_onDischarger {α : Type} (h : u.Lockstep j)
    (a : Action (Discharger σ) α) : ∃ r d, a.perform u.discharger = (r, d) ∧
      ((do requireLive; onDischarger a) : Action (CompilationUnit σ) α).perform u =
        (r, { u with discharger := d }) := by
  rcases run : a.perform u.discharger with ⟨r, d⟩
  refine ⟨r, d, rfl, ?_⟩
  rw [perform_live_bind h.live, onDischarger, Action.perform_get_bind, run]
  simp only [Action.perform_modify_bind, Action.perform_ofExcept]

theorem Lockstep.serve_solving [Solver σ] {α : Type} (h : u.Lockstep j) {r : Request}
    {a : Action (Discharger σ) α} (serve : u.serve r = u.outcome (do requireLive; onDischarger a))
    (noted : u.noted j r = j)
    (quiet : r.isSolving = false → ∀ fault d, a.perform u.discharger = (.error fault, d) →
      d = u.discharger) : u.Served j r := by
  obtain ⟨result, d, run, whole⟩ := h.perform_onDischarger a
  have lock : Lockstep { u with discharger := d } j := h.aside d []
  cases result with
  | ok x => exact .inl ⟨_, serve.trans (outcome_ok whole), noted.symm ▸ lock⟩
  | error fault =>
    refine .inr ⟨fault, _, serve.trans (outcome_error whole), lock, fun bare => ?_⟩
    rw [quiet bare fault d run]

theorem Lockstep.serve_declare [Solver σ] (h : u.Lockstep j) (name : String) (type : Option Ty)
    (site : Span) : u.Served j (.declare name type site) := by
  cases known : u.current.innerNames.any (·.name == name) with
  | false =>
    obtain ⟨d, v, run⟩ := h.exists_declare known type site
    exact .inl ⟨v, outcome_ok run, h.declared run⟩
  | true =>
    refine h.refused (.duplicateBinding name) (outcome_error ?_)
    rw [declare, perform_live_bind h.live, Action.perform_get_bind]
    simp [known]

theorem Lockstep.serve_exitThread [Solver σ] (h : u.Lockstep j) : u.Served j .exitThread := by
  cases outer : u.capabilities.outerThreads with
  | nil =>
    refine h.refused (.scopeUnderflow "thread region") (outcome_error ?_)
    rw [exitThread, perform_live_bind h.live, onCapabilities, Action.perform_get_bind]
    simp only [Capability.Context.exitThread, outer]
    rfl
  | cons tag rest =>
    have left : ∃ c, u.capabilities.exitThread = .ok c ∧
        c.branches.length = u.capabilities.branches.length := by
      simp [Capability.Context.exitThread, outer]
    obtain ⟨c, left, length⟩ := left
    exact .inl ⟨_, outcome_ok ((perform_live_bind h.live).trans (perform_onCapabilities left)),
      h.level ((Capability.Context.quiet_exitThread left).level h.capabilities length)⟩

theorem Lockstep.serve_exitBlock [Solver σ] (h : u.Lockstep j) (site : Span) :
    u.Served j (.exitBlock site) := by
  have goes : (exitBlock site).run u = (CompilationUnit.closeBlock site).run u := by
    rw [exitBlock, run_get_bind, if_neg (by simp [h.live])]
  cases open_ : u.current.blocks with
  | nil =>
    refine h.refused (.scopeUnderflow "block") (swept_eq [] (goes.trans ?_))
    rw [CompilationUnit.closeBlock, run_get_bind]
    simp only [open_]
    rfl
  | cons k blocks =>
    obtain ⟨found, v, run, lock, -⟩ := h.closeBlock site open_
    exact .inl ⟨v, swept_eq found (goes.trans run), lock⟩

theorem Lockstep.serve_endFunction [Solver σ] (h : u.Lockstep j) (gaveUp : Nat → Bool) (site : Span) :
    u.Served j (.endFunction gaveUp site) := by
  by_cases inside : u.functions = []
  · refine h.refused (.scopeUnderflow "function") (swept_eq [] ?_)
    rw [CompilationUnit.endFunction, run_get_bind, if_neg (by simp [h.live])]
    simp only [inside]
    rfl
  · obtain ⟨found, fault, v, run, lock, -⟩ := h.endFunction gaveUp site inside
    cases fault with
    | none => exact .inl ⟨v, swept_eq found run, lock⟩
    | some fault => exact .inr ⟨fault, v, swept_eq found run, lock, by simp [Request.isSolving]⟩

theorem Lockstep.serve_nextArm [Solver σ] (h : u.Lockstep j) : u.Served j .nextArm := by
  cases forks : u.forks with
  | nil =>
    refine h.refused (.scopeUnderflow "branch") (outcome_error ?_)
    rw [CompilationUnit.nextArm, perform_live_bind h.live, Action.perform_get_bind]
    simp only [forks]
    rfl
  | cons f rest =>
    obtain ⟨v, run, lock⟩ := h.nextArm forks
    exact .inl ⟨v, outcome_ok run, lock⟩

theorem Lockstep.serve_endBranch [Solver σ] (h : u.Lockstep j) (site : Span) :
    u.Served j (.endBranch site) := by
  cases forks : u.forks with
  | nil =>
    refine h.refused (.scopeUnderflow "branch") (outcome_error ?_)
    rw [CompilationUnit.endBranch, perform_live_bind h.live, Action.perform_get_bind]
    simp only [forks]
    rfl
  | cons f rest =>
    obtain ⟨v, run, lock⟩ := h.endBranch site forks
    exact .inl ⟨v, outcome_ok run, lock⟩

/-- Every request keeps the unit in lockstep with its journal. -/
theorem Lockstep.serve [Solver σ] (h : u.Lockstep j) (r : Request) : u.Served j r := by
  cases r with
  | declare name type site => exact h.serve_declare name type site
  | access a name site => exact h.serve_access a name site
  | release name site => exact h.serve_release name site
  | use name site =>
    exact h.serve_capabilityAccess Capability.Context.accesses_use name site rfl rfl
  | consume name site =>
    exact h.serve_capabilityAccess Capability.Context.accesses_consume name site rfl rfl
  | share name site =>
    exact h.serve_capabilityAccess Capability.Context.accesses_share name site rfl rfl
  | enterThread tag =>
    exact .inl ⟨_, outcome_ok (perform_live_bind h.live),
      h.level ((Capability.Context.quiet_enterThread _ tag).level h.capabilities rfl)⟩
  | exitThread => exact h.serve_exitThread
  | sync site =>
    exact .inl ⟨_, outcome_ok (perform_live_bind h.live),
      h.level (Capability.Context.level_sync h.capabilities site)⟩
  | require o =>
    exact h.serve_solving rfl rfl fun _ fault d run => Discharger.enqueue_refused run
  | freshHandle cancelled text => exact h.serve_solving rfl rfl (by simp [Request.isSolving])
  | assertShape cancelled symbol dims => exact h.serve_solving rfl rfl (by simp [Request.isSolving])
  | assume cancelled fact => exact h.serve_solving rfl rfl (by simp [Request.isSolving])
  | enterBlock site =>
    obtain ⟨v, run, lock⟩ := h.enterBlock site
    exact .inl ⟨v, outcome_ok run, lock⟩
  | exitBlock site => exact h.serve_exitBlock site
  | beginFunction name site =>
    obtain ⟨v, run, lock⟩ := h.beginFunction name site
    exact .inl ⟨v, outcome_ok run, lock⟩
  | endFunction gaveUp site => exact h.serve_endFunction gaveUp site
  | beginBranch =>
    obtain ⟨v, run, lock⟩ := h.beginBranch
    exact .inl ⟨v, outcome_ok run, lock⟩
  | nextArm => exact h.serve_nextArm
  | endBranch site => exact h.serve_endBranch site

theorem lockstep_fresh (name : String) (registry : Registry) (config : CheckerConfig)
    (run : String) (opening : Bool → Except Fault σ) :
    (fresh name registry config run opening).Lockstep Journal.blank where
  toCounted := (numbered_fresh name registry config run opening).toCounted
  pages := .cons ⟨rfl, rfl, rfl⟩ .nil
  held := rfl
  marked := by simp [Journal.blank, Journal.scopes]
  branches := rfl
  live := rfl

theorem Lockstep.follow [Solver σ] {c : CompilationUnit σ × Journal} (h : c.1.Lockstep c.2)
    (r : Request) : (follow c r).1.Lockstep (follow c r).2 := by
  obtain ⟨v, run, lock⟩ | ⟨fault, v, run, lock, -⟩ := h.serve r
  · simpa only [CompilationUnit.follow, run] using lock
  · simpa only [CompilationUnit.follow, run] using lock

theorem Lockstep.followAll [Solver σ] {c : CompilationUnit σ × Journal} (h : c.1.Lockstep c.2)
    (rs : List Request) :
    (rs.foldl CompilationUnit.follow c).1.Lockstep (rs.foldl CompilationUnit.follow c).2 := by
  induction rs generalizing c with
  | nil => exact h
  | cons r rs ih => exact ih (h.follow r)

/-- A unit is in lockstep with its journal after any requests. -/
theorem lockstep_of_followAll [Solver σ] {name : String} {registry : Registry}
    {config : CheckerConfig} {run : String} {opening : Bool → Except Fault σ} {rs : List Request}
    (whole : (fresh name registry config run opening).followAll rs = (u, j)) : u.Lockstep j := by
  have all := (lockstep_fresh name registry config run opening).followAll
    (c := (fresh name registry config run opening, Journal.blank)) rs
  rwa [show rs.foldl CompilationUnit.follow _ = (u, j) from whole] at all

/-- Requests about a name are about the ownership binding `x` of the body `b` and about the
capability `y`.  None of them fails, a release without a borrow apart. -/
structure Obeys (u : CompilationUnit σ) (name : String) (b : Body) (x : Ownership.Binding)
    (y : Option Capability.Binding) : Prop where
  access : ∀ a site, match x.record.refusal? name site a with
    | some w => (access a name site).perform u = (.ok (some w), u.collect w)
    | none => ∃ v, (access a name site).perform u = (.ok none, v) ∧
        u.Touches v b (some (x.advance (x.record.after site a) (.ofAccess a) site))
          (u.capabilities.remarked y a site)
  release : ∀ site, match x.record.release? with
    | none => (release name site).perform u = (.error (.noActiveBorrow name), u)
    | some r => ∃ v, (release name site).perform u = (.ok (), v) ∧
        u.Touches v b (some (x.advance r .release site)) u.capabilities
  use : ∀ site, u.Aims (use name site) b y (fun l => { l with state := .inUse }) .use site
  consume : ∀ site, u.Aims (consume name site) b y (·.consume site) .consume site
  share : ∀ site, u.Aims (share name site) b y (fun l => { l with shared := true }) .share site

theorem Leads.obeys (h : u.Leads name p m b x y) (n : u.Counted) (live : u.finished = false) :
    u.Obeys name b x y where
  access := h.access n live
  release := h.release live
  use := h.capabilityAccess live Capability.Context.accesses_use
  consume := h.capabilityAccess live Capability.Context.accesses_consume
  share := h.capabilityAccess live Capability.Context.accesses_share

/-- After any requests to a new unit, refused ones included: there are as many capability frames
as scopes, and as many open branches in the capabilities as in the unit.  A visible name leads to
the ownership binding and the capability that its declaration in the innermost scope made, and
requests about it are about these.  A request that fails changes nothing, unless it talks to the
solver. -/
theorem lockstep_after_requests [Solver σ] {name : String} {registry : Registry}
    {config : CheckerConfig} {run : String} {opening : Bool → Except Fault σ} {rs : List Request}
    (whole : (fresh name registry config run opening).followAll rs = (u, j)) :
    u.Counted ∧ u.capabilities.frames.length = u.scopeCount ∧
      u.capabilities.branches.length = u.forks.length ∧
      (∀ name, j.find? name = none ↔ u.find? name = none) ∧
      (∀ name p m, j.find? name = some (p, m) →
        ∃ b x y, u.Leads name p m b x y ∧ u.Obeys name b x y) ∧
      ∀ (r : Request) (fault : Fault) (v : CompilationUnit σ), r.isSolving = false →
        u.serve r = (some fault, v) → v = u := by
  have lock : u.Lockstep j := by
    have all := (lockstep_fresh name registry config run opening).followAll
      (c := (fresh name registry config run opening, Journal.blank)) rs
    rw [show rs.foldl follow _ = (u, j) from whole] at all
    exact all
  refine ⟨lock.toCounted, lock.frames, lock.branches, fun name => ?_, fun name p m found => ?_,
    fun r fault v bare failed => ?_⟩
  · rw [lock.find?_eq_none, find?, Option.map_eq_none_iff]
  · obtain ⟨b, x, y, leads⟩ := lock.leads found
    exact ⟨b, x, y, leads, leads.obeys lock.toCounted lock.live⟩
  · obtain ⟨w, run, -⟩ | ⟨fault', w, run, -, same⟩ := lock.serve r
    · rw [run] at failed
      cases failed
    · rw [run] at failed
      cases failed
      exact same bare

/-- Opens sessions with the SAT solver of the library, which is asked nothing. -/
def bare : Bool → Except Fault Logic.BitBlaster := fun _ => .ok { sat := Logic.clauseLearning }

/-- A tensor and inside a function a plain value of the same name, declared twice in vain. -/
def shadowing : List Request :=
  [.declare "x" (some .tensor) .zero, .beginFunction "f" .zero, .declare "x" none .zero,
   .declare "x" (some .tensor) .zero, .exitBlock .zero, .beginBranch, .nextArm]

theorem lockstep_after_requests_shadowing : ∃ u j p m b x y,
    (fresh "unit" .empty {} "" bare).followAll shadowing = (u, j) ∧
      j.find? "x" = some (p, m) ∧ p.body = 1 ∧ m.binding = 0 ∧ m.capability = none ∧
      u.Leads "x" p m b x y ∧ u.Obeys "x" b x y := by
  rcases whole : (fresh "unit" .empty {} "" bare).followAll shadowing with ⟨u, j⟩
  have found : ∃ p m, j.find? "x" = some (p, m) ∧ p.body = 1 ∧ m.binding = 0 ∧
      m.capability = none := by
    rw [← show Prod.snd _ = j from congrArg Prod.snd whole]
    exact ⟨_, _, rfl, rfl, rfl, rfl⟩
  obtain ⟨p, m, found, body, binding, capability⟩ := found
  obtain ⟨-, -, -, -, leads, -⟩ := lockstep_after_requests whole
  obtain ⟨b, x, y, leads, obeys⟩ := leads "x" p m found
  exact ⟨u, j, p, m, b, x, y, rfl, found, body, binding, capability, leads, obeys⟩

end CompilationUnit

end ResourceSafety
