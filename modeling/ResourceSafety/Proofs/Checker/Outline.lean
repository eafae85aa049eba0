import ResourceSafety.Proofs.Checker.Effect

/-!
# Outlines of units

The *outline* of a unit is its names and numbers without what is known about their
values.  Accesses, rewinds and joins keep it.  A declaration changes it in the innermost
scope only.  So what lies *around* the innermost scope is kept by everything that closes
what it opens, and a block or a function gives back the outline it began with.

The numbers of bodies, bindings and frames are never used twice while they can be seen
(`Numbered`).  Rewinds and joins find their values by number, and rest on this.
-/

namespace ResourceSafety

open Logic (Action Solver)

/-- A body without what is known about its values. -/
structure BodyOutline where
  id : Nat
  names : List Declared
  blocks : List Block
  scopes : List (List (Nat × String))

def Body.outline (b : Body) : BodyOutline := ⟨b.id, b.names, b.blocks, b.tracker.cells.outline⟩

/-- The number of open blocks, and what is outside the innermost scope. -/
def BodyOutline.around (b : BodyOutline) : Nat × BodyOutline :=
  (b.blocks.length, ⟨b.id, if b.blocks.isEmpty then [] else b.names, b.blocks.tail, b.scopes.tail⟩)

/-- A unit without what is known about its values. -/
structure UnitOutline where
  bodies : List BodyOutline
  frames : List Nat
  held : List (List (Nat × String))

/-- What is outside the innermost scope. -/
def UnitOutline.around (o : UnitOutline) :
    Option (Nat × BodyOutline) × List BodyOutline × List Nat × List (List (Nat × String)) :=
  (o.bodies.head?.map BodyOutline.around, o.bodies.tail, o.frames, o.held.tail)

namespace CompilationUnit

variable {σ : Type} {u v w : CompilationUnit σ}

def outline (u : CompilationUnit σ) : UnitOutline where
  bodies := u.bodies.map Body.outline
  frames := u.capabilities.frames
  held := u.capabilities.cells.outline

/-- No number is used twice. -/
structure Counted (u : CompilationUnit σ) : Prop where
  distinct : (u.bodies.map (·.id)).Nodup
  below : ∀ b ∈ u.bodies, b.id < u.nextBody
  trackers : ∀ b ∈ u.bodies, b.tracker.Numbered
  capabilities : u.capabilities.Numbered

/-- No number is used twice, and no obligation waits. -/
structure Numbered (u : CompilationUnit σ) : Prop extends u.Counted where
  queue : u.discharger.queue = []

theorem numbered_fresh (name : String) (registry : Registry) (config : CheckerConfig) (run : String)
    (opening : Bool → Except Fault σ) : (fresh name registry config run opening).Numbered where
  distinct := List.nodup_singleton 0
  below := by simp [fresh, bodies]
  trackers := by
    intro b mem
    rw [List.mem_singleton.mp mem]
    exact Ownership.Tracker.numbered_empty
  capabilities := Capability.Context.numbered_empty config.strict
  queue := rfl

/-- The change from `u` to `v` is in order and leaves alone what is around the innermost
scope. -/
structure Kept (u v : CompilationUnit σ) : Prop where
  numbered : v.Numbered
  around : v.outline.around = u.outline.around
  silent : v.violations = [] → u.violations = []
  registry : v.registry = u.registry
  forks : v.forks = u.forks
  finished : v.finished = u.finished

theorem Kept.refl (n : u.Numbered) : u.Kept u := ⟨n, rfl, id, rfl, rfl, rfl⟩

theorem Kept.trans (h : u.Kept v) (h' : v.Kept w) : u.Kept w where
  numbered := h'.numbered
  around := h'.around.trans h.around
  silent := h.silent ∘ h'.silent
  registry := h'.registry.trans h.registry
  forks := h'.forks.trans h.forks
  finished := h'.finished.trans h.finished

theorem outline_eq_cons (u : CompilationUnit σ) :
    u.outline = ⟨u.current.outline :: u.bodies.tail.map Body.outline,
      u.capabilities.frames, u.capabilities.cells.outline⟩ := by
  rw [outline, bodies_eq_cons u]
  rfl

theorem Turns.outline_of {bodies : List Body} {c : Capability.Context} {found : List Violation}
    (h : u.Turns v bodies c found) :
    v.outline = ⟨bodies.map Body.outline, c.frames, c.cells.outline⟩ := by
  simp only [outline, h.bodies, h.capabilities]

/-- What is opened is closed again. -/
theorem Kept.enclose {u₁ u₂ : CompilationUnit σ} {bodies bodies' : List Body}
    {c c' : Capability.Context} {found found' : List Violation}
    (first : u.Turns u₁ bodies c found) (inner : u₁.Kept u₂)
    (last : u₂.Turns v bodies' c' found') (numbered : v.Numbered) (same : v.outline = u.outline) :
    u.Kept v where
  numbered := numbered
  around := congrArg UnitOutline.around same
  silent := fun none => (first.silent (inner.silent (last.silent none).1)).1
  registry := last.registry.trans (inner.registry.trans first.registry)
  forks := last.forks.trans (inner.forks.trans first.forks)
  finished := last.finished.trans (inner.finished.trans first.finished)

/-! ## Requests that keep the outline -/

section

variable {bodies : List Body} {c : Capability.Context} {found : List Violation}

theorem Turns.outline_eq (h : u.Turns v bodies c found)
    (sameBodies : bodies.map Body.outline = u.bodies.map Body.outline)
    (frames : c.frames = u.capabilities.frames)
    (held : c.cells.outline = u.capabilities.cells.outline) : v.outline = u.outline := by
  simp only [outline, h.bodies, h.capabilities, sameBodies, frames, held]

theorem map_id_of_outline {l m : List Body} (h : l.map Body.outline = m.map Body.outline) :
    l.map (·.id) = m.map (·.id) := by
  have := congrArg (List.map BodyOutline.id) h
  simpa [Body.outline, Function.comp_def] using this

/-- The bodies of `v` are among those of `u`. -/
theorem Turns.counted (h : u.Turns v bodies c found) (n : u.Counted)
    (ids : (bodies.map (·.id)).Sublist (u.bodies.map (·.id)))
    (trackers : ∀ b ∈ bodies, b.tracker.Numbered) (capabilities : c.Numbered) : v.Counted where
  distinct := by rw [h.bodies]; exact n.distinct.sublist ids
  below := by
    intro b mem
    rw [h.bodies] at mem
    obtain ⟨b', mem', same⟩ := List.mem_map.mp (ids.subset (List.mem_map_of_mem mem))
    rw [← same, h.nextBody]
    exact n.below b' mem'
  trackers := by rw [h.bodies]; exact trackers
  capabilities := by rw [h.capabilities]; exact capabilities

theorem Turns.numbered (h : u.Turns v bodies c found) (n : u.Numbered)
    (sameIds : bodies.map (·.id) = u.bodies.map (·.id))
    (trackers : ∀ b ∈ bodies, b.tracker.Numbered) (capabilities : c.Numbered) : v.Numbered :=
  ⟨h.counted n.toCounted (sameIds ▸ List.Sublist.refl _) trackers capabilities,
    h.queue.trans n.queue⟩

theorem Turns.kept (h : u.Turns v bodies c found) (numbered : v.Numbered)
    (around : v.outline.around = u.outline.around) : u.Kept v where
  numbered := numbered
  around := around
  silent := fun none => (h.silent none).1
  registry := h.registry
  forks := h.forks
  finished := h.finished

/-- A change of what is known about values. -/
theorem Turns.kept_of_outline (h : u.Turns v bodies c found) (n : u.Numbered)
    (sameBodies : bodies.map Body.outline = u.bodies.map Body.outline)
    (trackers : ∀ b ∈ bodies, b.tracker.Numbered) (capabilities : c.Numbered)
    (frames : c.frames = u.capabilities.frames)
    (held : c.cells.outline = u.capabilities.cells.outline) :
    u.Kept v ∧ v.outline = u.outline := by
  have same := h.outline_eq sameBodies frames held
  exact ⟨h.kept (h.numbered n (map_id_of_outline sameBodies) trackers capabilities)
    (congrArg UnitOutline.around same), same⟩

end

/-- A quiet change of the capabilities. -/
theorem kept_quiet {c : Capability.Context} (n : u.Numbered) (q : u.capabilities.Quiet c)
    (h : u.Turns v u.bodies c []) : u.Kept v ∧ v.outline = u.outline :=
  h.kept_of_outline n rfl n.trackers (q.numbered n.capabilities) q.frames
    (congrArg Cells.outline q.cells)

/-- One body gets a tracker with the same outline. -/
theorem outline_changed (n : u.Counted) {b : Body} (mem : b ∈ u.bodies)
    {tracker : Ownership.Tracker} (same : tracker.cells.outline = b.tracker.cells.outline)
    (next : tracker.next = b.tracker.next) :
    (u.bodies.map fun x => if x.id = b.id then { x with tracker } else x).map Body.outline =
        u.bodies.map Body.outline ∧
      ∀ x ∈ u.bodies.map fun x => if x.id = b.id then { x with tracker } else x,
        x.tracker.Numbered := by
  have here : ∀ x ∈ u.bodies, x.id = b.id → x = b := fun x mx =>
    List.inj_on_of_nodup_map n.distinct mx mem
  constructor
  · rw [List.map_map]
    refine List.map_congr_left fun x mx => ?_
    by_cases id : x.id = b.id
    · have := here x mx id
      subst this
      simp [Body.outline, same]
    · simp [id]
  · intro y my
    obtain ⟨x, mx, rfl⟩ := List.mem_map.mp my
    by_cases id : x.id = b.id
    · simp only [id, if_true]
      exact (n.trackers b mem).of_outline same next
    · simp only [id, if_false]
      exact n.trackers x mx

theorem kept_access {a : Ownership.Access} {name : String} {site : Span} {x : Option Violation}
    (n : u.Numbered) (h : (access a name site).perform u = (.ok x, v)) :
    u.Kept v ∧ v.outline = u.outline := by
  obtain ⟨b, d, tracker, c, located, accessed, remarked, turns⟩ := access_ok h
  have quiet := remarked.quiet n.capabilities
  have mem := mem_bodies_of_locate? located
  obtain ⟨same, next⟩ := Ownership.Tracker.outline_access (n.trackers b mem) accessed
  obtain ⟨bodies, trackers⟩ := outline_changed n.toCounted mem same next
  exact turns.kept_of_outline n bodies trackers (quiet.numbered n.capabilities) quiet.frames
    (congrArg Cells.outline quiet.cells)

theorem kept_release {name : String} {site : Span} {x : Unit}
    (n : u.Numbered) (h : (release name site).perform u = (.ok x, v)) :
    u.Kept v ∧ v.outline = u.outline := by
  obtain ⟨b, d, tracker, located, released, turns⟩ := release_ok h
  have mem := mem_bodies_of_locate? located
  obtain ⟨same, next⟩ := Ownership.Tracker.outline_release (n.trackers b mem) released
  obtain ⟨bodies, trackers⟩ := outline_changed n.toCounted mem same next
  exact turns.kept_of_outline n bodies trackers n.capabilities rfl rfl

theorem kept_capabilityAccess
    {op : Capability.Context → String → Span → Except Fault (Option Violation × Capability.Context)}
    {step : Span → Capability.Lifecycle → Capability.Lifecycle} {kind : Capability.AccessKind}
    {name : String} {site : Span} {x : Option Violation}
    (accesses : Capability.Context.Accesses op step kind) (n : u.Numbered)
    (h : (capabilityAccess op name site).perform u = (.ok x, v)) :
    u.Kept v ∧ v.outline = u.outline := by
  obtain ⟨b, d, -, turns⟩ := capabilityAccess_ok h
  split at turns
  · obtain ⟨c, reached, turns⟩ := turns
    obtain ⟨_, _, -, adjusts, -⟩ := accesses.reaches n.capabilities reached
    refine turns.kept_of_outline n rfl n.trackers (adjusts.numbered n.capabilities)
      adjusts.frames ?_
    rw [adjusts.cells]
    exact Cells.outline_adjust _ _
  · rw [turns]
    exact ⟨.refl n, rfl⟩

/-! ## Declarations -/

theorem around_addName (b : Body) (d : Declared) (tracker : Ownership.Tracker)
    (same : tracker.cells.outline.tail = b.tracker.cells.outline.tail) :
    ({ b with tracker }.addName d).outline.around = b.outline.around := by
  cases blocks : b.blocks <;> simp [Body.addName, Body.outline, BodyOutline.around, blocks, same]

@[simp] theorem id_addName (b : Body) (d : Declared) : (b.addName d).id = b.id := by
  cases blocks : b.blocks <;> simp [Body.addName, blocks]

@[simp] theorem tracker_addName (b : Body) (d : Declared) : (b.addName d).tracker = b.tracker := by
  cases blocks : b.blocks <;> simp [Body.addName, blocks]

theorem current_mem (u : CompilationUnit σ) : u.current ∈ u.bodies := by
  rw [bodies_eq_cons]
  exact List.mem_cons_self

/-- What a declaration does to the capabilities. -/
theorem held_declare {name : String} {d : Declared} {site : Span} {c : Capability.Context}
    (n : u.capabilities.Numbered)
    (held : match d.mode.capability with
      | some kind => u.capabilities.define name kind site = .ok c
      | none => c = u.capabilities) :
    c.Numbered ∧ c.frames = u.capabilities.frames ∧ c.cells =
      if d.mode.hasCapability then u.capabilities.cells.add ⟨u.capabilities.faces.length, name, {}⟩
      else u.capabilities.cells := by
  cases has : d.mode.capability with
  | none =>
    rw [has] at held
    cases held
    exact ⟨n, rfl, by simp [Mode.hasCapability, has]⟩
  | some kind =>
    rw [has] at held
    obtain ⟨_, _, -, frames, -⟩ := Capability.Context.define_ok held
    exact ⟨Capability.Context.numbered_define n held, frames, by
      simp [Mode.hasCapability, has, Capability.Context.cells_define n held]⟩

theorem counted_declare {name : String} {type : Option Ty} {site : Span} {d : Declared}
    (n : u.Counted) (h : (declare name type site).perform u = (.ok d, v)) : v.Counted := by
  obtain ⟨tracker, c, defined, held, turns⟩ := declare_ok h
  refine turns.counted n ?_ ?_ (held_declare n.capabilities held).1
  · rw [bodies_eq_cons u]
    simp
  · intro b mem
    cases mem with
    | head =>
      simpa using Ownership.Tracker.numbered_define (n.trackers _ u.current_mem) defined
    | tail _ mem => exact n.trackers b (List.mem_of_mem_tail mem)

theorem kept_declare {name : String} {type : Option Ty} {site : Span} {d : Declared}
    (n : u.Numbered) (h : (declare name type site).perform u = (.ok d, v)) : u.Kept v := by
  obtain ⟨tracker, c, defined, held, turns⟩ := declare_ok h
  refine turns.kept ⟨counted_declare n.toCounted h, turns.queue.trans n.queue⟩ ?_
  have body : ({ u.current with tracker }.addName (u.declared name type site)).outline.around =
      u.current.outline.around := by
    refine around_addName _ _ _ ?_
    rw [(Ownership.Tracker.cells_define defined).1]
    exact Cells.outline_add_tail _ _
  obtain ⟨-, frames, cells⟩ := held_declare n.capabilities held
  have tail : c.cells.outline.tail = u.capabilities.cells.outline.tail := by
    rw [cells]
    split
    · exact Cells.outline_add_tail _ _
    · rfl
  rw [turns.outline_of, outline_eq_cons u]
  simp [UnitOutline.around, body, frames, tail]

/-! ## Blocks and functions -/

theorem counted_enterBlock {site : Span} {x : Unit} (n : u.Counted)
    (h : (enterBlock site).perform u = (.ok x, v)) : v.Counted := by
  refine (enterBlock_ok h).counted n ?_ ?_ (Capability.Context.numbered_enter n.capabilities)
  · rw [bodies_eq_cons u]
    exact List.Sublist.refl _
  · intro b mem
    cases mem with
    | head => exact Ownership.Tracker.numbered_enter (n.trackers _ u.current_mem)
    | tail _ mem => exact n.trackers b (List.mem_of_mem_tail mem)

theorem numbered_enterBlock {site : Span} {x : Unit} (n : u.Numbered)
    (h : (enterBlock site).perform u = (.ok x, v)) : v.Numbered :=
  ⟨counted_enterBlock n.toCounted h, (enterBlock_ok h).queue.trans n.queue⟩

/-- A block gives back the outline it began with. -/
theorem kept_block {start stop : Span} {x : Unit} {found : List Violation}
    {u₁ u₂ : CompilationUnit σ} (n : u.Numbered)
    (first : (enterBlock start).perform u = (.ok x, u₁)) (inner : u₁.Kept u₂)
    (last : (exitBlock stop).run u₂ = ((found, none), v)) :
    u.Kept v ∧ v.outline = u.outline := by
  have enters := enterBlock_ok first
  obtain ⟨k, blocks, tracker, c, open_, exits, leaves, turns⟩ := closeBlock_ok (exitBlock_ok last)
  have m := inner.numbered
  -- around the scope of the block is the unit as it was before
  have around := inner.around
  rw [enters.outline_of, outline_eq_cons u₂,
    Capability.Context.cells_enter n.capabilities] at around
  simp only [UnitOutline.around, List.map_cons, List.head?_cons, Option.map_some, List.tail_cons,
    BodyOutline.around, Body.outline, enterBody, open_, Ownership.Tracker.cells_enter,
    Cells.outline_push, List.length_cons, List.isEmpty_cons, Bool.false_eq_true, if_false,
    Prod.mk.injEq, Option.some.injEq, BodyOutline.mk.injEq] at around
  obtain ⟨⟨-, id, names, blocks_eq, scopes⟩, outer, frames, held⟩ := around
  have same : v.outline = u.outline := by
    rw [turns.outline_of, outline_eq_cons u]
    simp only [List.map_cons, Body.outline, id, names, blocks_eq, outer,
      (Ownership.Tracker.cells_exit exits).1, Cells.outline_tail, scopes, leaves.frames, frames,
      leaves.cells, held]
    rfl
  refine ⟨Kept.enclose enters inner turns (turns.numbered m ?_ ?_ (leaves.numbered m.capabilities))
    same, same⟩
  · rw [bodies_eq_cons u₂]
    rfl
  · intro b mem
    cases mem with
    | head => exact Ownership.Tracker.numbered_exit (m.trackers _ u₂.current_mem) exits
    | tail _ mem => exact m.trackers b (List.mem_of_mem_tail mem)

theorem counted_beginFunction {name : String} {site : Span} {x : Unit} (n : u.Counted)
    (h : (beginFunction name site).perform u = (.ok x, v)) : v.Counted := by
  have turns := beginFunction_ok h
  refine ⟨?_, ?_, ?_, ?_⟩
  · rw [turns.bodies, List.map_cons, List.nodup_cons]
    refine ⟨fun mem => ?_, n.distinct⟩
    obtain ⟨b, mb, same⟩ := List.mem_map.mp mem
    exact Nat.ne_of_lt (n.below b mb) same
  · rw [turns.bodies, turns.nextBody]
    intro b mem
    cases mem with
    | head => exact Nat.lt_succ_self _
    | tail _ mem => exact Nat.lt_succ_of_lt (n.below b mem)
  · rw [turns.bodies]
    intro b mem
    cases mem with
    | head => exact Ownership.Tracker.numbered_empty
    | tail _ mem => exact n.trackers b mem
  · rw [turns.capabilities]
    exact Capability.Context.numbered_enter n.capabilities

theorem numbered_beginFunction {name : String} {site : Span} {x : Unit} (n : u.Numbered)
    (h : (beginFunction name site).perform u = (.ok x, v)) : v.Numbered :=
  ⟨counted_beginFunction n.toCounted h, (beginFunction_ok h).queue.trans n.queue⟩

/-- What is open in a function when its steps were walked: no block, and around it what
was open before. -/
theorem around_function {name : String} {start : Span} {x : Unit} {u₁ u₂ : CompilationUnit σ}
    (n : u.Numbered) (first : (beginFunction name start).perform u = (.ok x, u₁))
    (inner : u₁.Kept u₂) :
    u₂.current.blocks = [] ∧ u₂.bodies.tail.map Body.outline = u.bodies.map Body.outline ∧
      u₂.capabilities.frames = u.capabilities.enter.frames ∧
      u₂.capabilities.cells.outline.tail = u.capabilities.cells.outline := by
  have around := inner.around
  rw [(beginFunction_ok first).outline_of, outline_eq_cons u₂,
    Capability.Context.cells_enter n.capabilities] at around
  simp only [UnitOutline.around, List.map_cons, List.head?_cons, Option.map_some, List.tail_cons,
    BodyOutline.around, Body.outline, newBody, Cells.outline_push, List.length_nil,
    Prod.mk.injEq, Option.some.injEq] at around
  obtain ⟨⟨closed, -⟩, outer, frames, held⟩ := around
  exact ⟨List.length_eq_zero_iff.mp closed, outer, frames, held⟩

/-- A function gives back the outline it began with. -/
theorem kept_function [Solver σ] {gaveUp : Nat → Bool} {name : String} {start stop : Span} {x : Unit}
    {found : List Violation} {u₁ u₂ : CompilationUnit σ} (n : u.Numbered)
    (first : (beginFunction name start).perform u = (.ok x, u₁)) (inner : u₁.Kept u₂)
    (last : (endFunction gaveUp stop).run u₂ = ((found, none), v)) :
    u.Kept v ∧ v.outline = u.outline := by
  have enters := beginFunction_ok first
  have m := inner.numbered
  obtain ⟨closed, outer, frames, held⟩ := around_function n first inner
  obtain ⟨c, leaves, turns⟩ := endFunction_ok m.queue closed last
  have same : v.outline = u.outline := by
    rw [turns.outline_of, outline]
    simp only [outer, leaves.frames, frames, leaves.cells, Cells.outline_tail, held]
    rfl
  have sub := List.tail_sublist u₂.bodies
  have counted := turns.counted m.toCounted (sub.map _)
    (fun b mem => m.trackers b (sub.subset mem)) (leaves.numbered m.capabilities)
  have numbered : v.Numbered := ⟨counted, turns.queue.trans m.queue⟩
  have kept := Kept.enclose enters inner turns numbered same
  exact ⟨⟨kept.numbered, kept.around, kept.silent, kept.registry, kept.forks, kept.finished⟩, same⟩

/-! ## Branches -/

/-- The change from `u` to `v` is in order and is about values, and about open branches,
alone. -/
structure Steady (u v : CompilationUnit σ) : Prop where
  numbered : v.Numbered
  outline : v.outline = u.outline
  silent : v.violations = [] → u.violations = []
  registry : v.registry = u.registry
  finished : v.finished = u.finished

theorem Steady.trans (h : u.Steady v) (h' : v.Steady w) : u.Steady w where
  numbered := h'.numbered
  outline := h'.outline.trans h.outline
  silent := h.silent ∘ h'.silent
  registry := h'.registry.trans h.registry
  finished := h'.finished.trans h.finished

theorem Kept.steady (h : u.Kept v) (same : v.outline = u.outline) : u.Steady v :=
  ⟨h.numbered, same, h.silent, h.registry, h.finished⟩

theorem Steady.kept (h : u.Steady v) (forks : v.forks = u.forks) : u.Kept v :=
  ⟨h.numbered, congrArg UnitOutline.around h.outline, h.silent, h.registry, forks, h.finished⟩

/-- What is known about all values now. -/
def now (u : CompilationUnit σ) : Moment := u.moment (u.bodies.map (·.id))

theorem steady_beginBranch {x : Unit} (n : u.Numbered) (h : beginBranch.perform u = (.ok x, v)) :
    u.Steady v ∧ v.forks = { entry := u.now } :: u.forks ∧ v.bodies = u.bodies ∧
      u.capabilities.Quiet v.capabilities := by
  rw [beginBranch_ok h]
  have quiet := Capability.Context.quiet_enterBranch u.capabilities
  refine ⟨⟨⟨⟨n.distinct, n.below, n.trackers, quiet.numbered n.capabilities⟩, n.queue⟩,
    ?_, id, rfl, rfl⟩, rfl, rfl, quiet⟩
  simp only [outline, quiet.frames, quiet.cells]
  rfl

theorem outline_rewindBody (m : Moment) (b : Body) : (rewindBody m b).outline = b.outline := by
  simp only [rewindBody]
  split
  · simp [Body.outline, Ownership.Tracker.outline_restore]
  · rfl

theorem numbered_rewindBody (m : Moment) {b : Body} (n : b.tracker.Numbered) :
    (rewindBody m b).tracker.Numbered := by
  simp only [rewindBody]
  split
  · exact n.of_outline (Ownership.Tracker.outline_restore _ _) rfl
  · exact n

theorem outline_joinBody (site : Span) (arms : List Moment) (b : Body) :
    (joinBody site arms b).outline = b.outline := by
  simp only [joinBody, Body.outline, (Ownership.Tracker.outline_merge b.tracker site _).1]

theorem numbered_joinBody (site : Span) (arms : List Moment) {b : Body}
    (n : b.tracker.Numbered) : (joinBody site arms b).tracker.Numbered := by
  obtain ⟨same, next⟩ := Ownership.Tracker.outline_merge b.tracker site
    (arms.filterMap (·.bodies.lookup b.id))
  exact n.of_outline same next

/-- A change of values in all bodies. -/
theorem steady_map {f : Body → Body} {c : Capability.Context} {forks : List Fork} (n : u.Numbered)
    (turns : { u with forks }.Turns v (u.bodies.map f) c [])
    (sameBody : ∀ b : Body, (f b).outline = b.outline)
    (trackers : ∀ b : Body, b.tracker.Numbered → (f b).tracker.Numbered)
    (capabilities : c.Numbered) (frames : c.frames = u.capabilities.frames)
    (held : c.cells.outline = u.capabilities.cells.outline) : u.Steady v := by
  have bodies : (u.bodies.map f).map Body.outline = u.bodies.map Body.outline := by
    rw [List.map_map]
    exact List.map_congr_left fun b _ => sameBody b
  have n' : { u with forks }.Numbered :=
    ⟨⟨n.distinct, n.below, n.trackers, n.capabilities⟩, n.queue⟩
  obtain ⟨kept, same⟩ := turns.kept_of_outline n' bodies
    (fun b mem => by
      obtain ⟨b', mem', rfl⟩ := List.mem_map.mp mem
      exact trackers b' (n.trackers b' mem'))
    capabilities frames held
  exact ⟨kept.numbered, same, kept.silent, kept.registry, kept.finished⟩

theorem steady_nextArm {x : Unit} (n : u.Numbered) (h : nextArm.perform u = (.ok x, v)) :
    ∃ f rest, u.forks = f :: rest ∧ v.forks = Fork.finishArm f u :: rest ∧ u.Steady v := by
  obtain ⟨f, rest, c, forks, next, turns⟩ := nextArm_ok h
  have quiet := Capability.Context.quiet_nextArm next
  have adjusts := Capability.Context.adjusts_restore u.capabilities f.entry.capabilities
  refine ⟨f, rest, forks, turns.forks, steady_map n turns (outline_rewindBody f.entry)
    (fun b => numbered_rewindBody f.entry) (quiet.numbered (adjusts.numbered n.capabilities))
    (quiet.frames.trans adjusts.frames) ?_⟩
  rw [quiet.cells, adjusts.cells]
  exact Cells.outline_adjust _ _

theorem steady_endBranch {site : Span} {x : Unit} (n : u.Numbered)
    (h : (endBranch site).perform u = (.ok x, v)) :
    ∃ f rest, u.forks = f :: rest ∧ v.forks = rest ∧ u.Steady v := by
  obtain ⟨f, rest, c, forks, left, turns⟩ := endBranch_ok h
  have quiet := Capability.Context.quiet_exitBranch left
  have merged : (c.merge ((meeting (Fork.finishArm f u)).map Moment.capabilities)).Numbered ∧
      (c.merge ((meeting (Fork.finishArm f u)).map Moment.capabilities)).frames = c.frames ∧
      (c.merge ((meeting (Fork.finishArm f u)).map Moment.capabilities)).cells.outline =
        c.cells.outline :=
    Capability.Context.outline_merge (quiet.numbered n.capabilities) _
  exact ⟨f, rest, forks, turns.forks, steady_map n turns (outline_joinBody site _)
    (fun b => numbered_joinBody site _) merged.1 (merged.2.1.trans quiet.frames)
    (merged.2.2.trans (congrArg Cells.outline quiet.cells))⟩

end CompilationUnit

end ResourceSafety
