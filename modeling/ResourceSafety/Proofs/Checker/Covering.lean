import ResourceSafety.Proofs.Checker.Outline

/-!
# Units that cover others

Two units are walked side by side: one over a whole program, the other over a single way
through it.  The first *covers* the second when both have the same names in the same
places, and what the first knows about each value covers what the second knows.

As long as the first unit has no finding, every request keeps this, and the second unit
only has findings that a join cannot foresee: about threads, and those of the kind that the
relation of records allows.  Where a branch begins and ends only the first unit takes part.
A rewind covers what the beginning of the branch covered, and a join covers what any of its
arms covers.
-/

namespace ResourceSafety

open Logic (Action Solver)
open Ownership (Record)

/-- The same names in the same places, with records that are related. -/
structure Body.Covers (R : Record → Record → Prop) (b p : Body) : Prop where
  names : b.names = p.names
  blocks : b.blocks = p.blocks
  tracker : b.tracker.Covers R p.tracker

/-- A finding about threads, or of another kind that is allowed. -/
def Violation.Tolerated (T : Violation → Prop) (v : Violation) : Prop :=
  T v ∨ v.kind = .concurrentUse

variable {R : Record → Record → Prop} {T : Violation → Prop}

namespace Body.Covers

theorem find?_eq {b p : Body} (h : b.Covers R p) (name : String) :
    b.find? name = p.find? name := by
  simp only [Body.find?, h.names, h.blocks]

theorem addName {b p : Body} (h : b.Covers R p) (d : Declared) :
    (b.addName d).Covers R (p.addName d) := by
  obtain ⟨names, blocks, tracker⟩ := h
  simp only [Body.addName, blocks]
  split
  · exact ⟨names, rfl, tracker⟩
  · exact ⟨by simp only [names], rfl, tracker⟩

end Body.Covers

namespace CompilationUnit

variable {σ : Type} {u v p q e : CompilationUnit σ}

/-- What is known in `u` covers what is known in `p`, and `p` has tolerated findings
only. -/
structure Covers (R : Record → Record → Prop) (T : Violation → Prop) (u p : CompilationUnit σ) :
    Prop where
  bodies : List.Forall₂ (Body.Covers R) u.bodies p.bodies
  held : u.capabilities.Covers p.capabilities
  registry : u.registry = p.registry
  tolerated : ∀ w ∈ p.violations, w.Tolerated T

namespace Covers

theorem cons (h : u.Covers R T p) : u.current.Covers R p.current ∧
    List.Forall₂ (Body.Covers R) u.bodies.tail p.bodies.tail := by
  have bodies := h.bodies
  rw [bodies_eq_cons u, bodies_eq_cons p] at bodies
  cases bodies with
  | cons first rest => exact ⟨first, rest⟩

/-- Both units change. -/
theorem turn (h : u.Covers R T p) {bodies bodies' : List Body} {c c' : Capability.Context}
    {found found' : List Violation} (hu : u.Turns v bodies c found)
    (hp : p.Turns q bodies' c' found') (row : List.Forall₂ (Body.Covers R) bodies bodies')
    (held : c.Covers c') (new : ∀ w ∈ found', w.Tolerated T) : v.Covers R T q where
  bodies := by rw [hu.bodies, hp.bodies]; exact row
  held := by rw [hu.capabilities, hp.capabilities]; exact held
  registry := by rw [hu.registry, hp.registry]; exact h.registry
  tolerated := by
    intro w mem
    rw [hp.findings] at mem
    obtain old | mem := mem_collectAll mem
    · exact h.tolerated w old
    · exact new w mem

end Covers

/-! ## Names -/

/-- A name is searched for in the bodies, innermost first. -/
theorem find?_of_locate? {name : String} {b : Body} {d : Declared}
    (h : u.locate? name = some (b, d)) :
    u.bodies.find? (fun b => (b.find? name).isSome) = some b ∧ b.find? name = some d := by
  simp only [locate?] at h
  generalize u.bodies = l at h ⊢
  induction l with
  | nil => cases h
  | cons x rest ih =>
    rw [List.findSome?_cons] at h
    rw [List.find?_cons]
    cases here : x.find? name with
    | none =>
      simp only [here, Option.map_none] at h
      simpa [here] using ih h
    | some d' =>
      simp only [here, Option.map_some, Option.some.injEq, Prod.mk.injEq] at h
      obtain ⟨rfl, rfl⟩ := h
      exact ⟨by simp, here⟩

/-- A name means the same in both units, in bodies of the same place. -/
theorem Covers.located (h : u.Covers R T p) (n : u.Numbered) (m : p.Numbered) {name : String}
    {b b' : Body} {d d' : Declared} (hu : u.locate? name = some (b, d))
    (hp : p.locate? name = some (b', d')) :
    d = d' ∧ b.Covers R b' ∧
      List.Forall₂ (fun x y => x.Covers R y ∧ (x.id = b.id ↔ y.id = b'.id)) u.bodies p.bodies := by
  obtain ⟨found, meant⟩ := find?_of_locate? hu
  obtain ⟨found', meant'⟩ := find?_of_locate? hp
  obtain ⟨bodies, places⟩ := Cells.found_together h.bodies
    (fun x y covers => by rw [covers.find?_eq]) n.distinct m.distinct found found'
  rw [bodies.find?_eq, meant'] at meant
  exact ⟨(Option.some.inj meant).symm, bodies, places⟩

/-- Both units give a new tracker to the body that a name was found in. -/
theorem forall₂_changed {P Q : Body → Body → Prop} {l m : List Body} {id id' : Nat}
    {tracker tracker' : Ownership.Tracker}
    (places : List.Forall₂ (fun x y : Body => P x y ∧ (x.id = id ↔ y.id = id')) l m)
    (new : ∀ x y, P x y → x.id = id → Q { x with tracker } { y with tracker := tracker' })
    (old : ∀ x y, P x y → Q x y) :
    List.Forall₂ Q (l.map fun x => if x.id = id then { x with tracker } else x)
      (m.map fun y => if y.id = id' then { y with tracker := tracker' } else y) := by
  simp only [List.forall₂_map_left_iff, List.forall₂_map_right_iff]
  refine places.imp fun x y pair => ?_
  by_cases here : x.id = id
  · simpa only [if_pos here, if_pos (pair.2.mp here)] using new x y pair.1 here
  · have there : y.id ≠ id' := fun same => here (pair.2.mpr same)
    simpa only [here, there, if_false] using old x y pair.1

/-! ## Accesses -/

theorem Covers.access [Record.Cautious R T] (h : u.Covers R T p) (n : u.Numbered) (m : p.Numbered)
    {a : Ownership.Access} {name : String} {site : Span} {x y : Option Violation}
    (hu : (access a name site).perform u = (.ok x, v))
    (hp : (access a name site).perform p = (.ok y, q)) (silent : v.violations = []) :
    v.Covers R T q := by
  obtain ⟨b, d, tracker, c, located, accessed, remarked, turns⟩ := access_ok hu
  obtain ⟨b', d', tracker', c', located', accessed', remarked', turns'⟩ := access_ok hp
  obtain ⟨-, bodies, places⟩ := h.located n m located located'
  -- without a finding the first unit accepted the access
  have accepted : x = none := by simpa using (turns.silent silent).2
  subst accepted
  obtain ⟨covers, findings⟩ := bodies.tracker.access
    (n.trackers b (mem_bodies_of_locate? located))
    (m.trackers b' (mem_bodies_of_locate? located')) accessed accessed'
  refine h.turn turns turns' (forall₂_changed places
    (fun x y pair _ => ⟨pair.names, pair.blocks, covers⟩) fun _ _ pair => pair)
    (h.held.quiet (remarked.quiet n.capabilities) (remarked'.quiet m.capabilities)) ?_
  exact fun w mem => .inl (findings w (Option.mem_toList.mp mem))

theorem Covers.release [Record.Cautious R T] (h : u.Covers R T p) (n : u.Numbered) (m : p.Numbered)
    {name : String} {site : Span} {x y : Unit}
    (hu : (release name site).perform u = (.ok x, v))
    (hp : (release name site).perform p = (.ok y, q)) : v.Covers R T q := by
  obtain ⟨b, d, tracker, located, released, turns⟩ := release_ok hu
  obtain ⟨b', d', tracker', located', released', turns'⟩ := release_ok hp
  obtain ⟨-, bodies, places⟩ := h.located n m located located'
  have covers := bodies.tracker.release (n.trackers b (mem_bodies_of_locate? located))
    (m.trackers b' (mem_bodies_of_locate? located')) released released'
  exact h.turn turns turns' (forall₂_changed places
    (fun x y pair _ => ⟨pair.names, pair.blocks, covers⟩) fun _ _ pair => pair) h.held (by simp)

theorem Covers.capabilityAccess (h : u.Covers R T p) (n : u.Numbered) (m : p.Numbered)
    {op : Capability.Context → String → Span → Except Fault (Option Violation × Capability.Context)}
    {step : Span → Capability.Lifecycle → Capability.Lifecycle} {kind : Capability.AccessKind}
    {name : String} {site : Span} {x y : Option Violation}
    (accesses : Capability.Context.Accesses op step kind)
    (keeps : ∀ {l k : Capability.Lifecycle}, l.Covers k → (step site l).Covers (step site k))
    (hu : (capabilityAccess op name site).perform u = (.ok x, v))
    (hp : (capabilityAccess op name site).perform p = (.ok y, q)) (silent : v.violations = []) :
    v.Covers R T q := by
  obtain ⟨b, d, located, turns⟩ := capabilityAccess_ok hu
  obtain ⟨b', d', located', turns'⟩ := capabilityAccess_ok hp
  obtain ⟨rfl, -, -⟩ := h.located n m located located'
  split at turns
  next has =>
    rw [if_pos has] at turns'
    obtain ⟨c, reached, turns⟩ := turns
    obtain ⟨c', reached', turns'⟩ := turns'
    have accepted : x = none := by simpa using (turns.silent silent).2
    subst accepted
    obtain ⟨held, findings⟩ := h.held.reach n.capabilities m.capabilities keeps
      (accesses.reaches n.capabilities reached) (accesses.reaches m.capabilities reached')
    refine h.turn turns turns' h.bodies held ?_
    exact fun w mem => .inr (findings w (Option.mem_toList.mp mem))
  next lacks =>
    rw [if_neg lacks] at turns'
    rw [turns, turns']
    exact h

/-- Threads and synchronization. -/
theorem Covers.quiet (h : u.Covers R T p) {c c' : Capability.Context} (hq : u.capabilities.Quiet c)
    (hq' : p.capabilities.Quiet c') (hu : u.Turns v u.bodies c [])
    (hp : p.Turns q p.bodies c' []) : v.Covers R T q :=
  h.turn hu hp h.bodies (h.held.quiet hq hq') (by simp)

/-! ## Declarations and scopes -/

theorem Covers.declare [Record.Cautious R T] (h : u.Covers R T p) (n : u.Numbered)
    (m : p.Numbered) {name : String} {type : Option Ty} {site : Span} {d d' : Declared}
    (hu : (declare name type site).perform u = (.ok d, v))
    (hp : (declare name type site).perform p = (.ok d', q)) : v.Covers R T q := by
  obtain ⟨tracker, c, defined, held, turns⟩ := declare_ok hu
  obtain ⟨tracker', c', defined', held', turns'⟩ := declare_ok hp
  have same : p.declared name type site = u.declared name type site := by
    simp only [declared, h.registry]
  rw [same] at held' turns'
  obtain ⟨current, outer⟩ := h.cons
  have covers : tracker.Covers R tracker' := current.tracker.define defined defined'
  have body := Body.Covers.addName (b := { u.current with tracker })
    (p := { p.current with tracker := tracker' })
    ⟨current.names, current.blocks, covers⟩ (u.declared name type site)
  refine h.turn turns turns' (.cons body outer) ?_ (by simp)
  split at held
  next kind has =>
    rw [has] at held'
    exact h.held.define n.capabilities m.capabilities held held'
  next lacks =>
    rw [lacks] at held'
    rw [held, held']
    exact h.held

theorem Covers.enterBlock (h : u.Covers R T p) (n : u.Numbered) (m : p.Numbered) {site : Span}
    {x y : Unit} (hu : (enterBlock site).perform u = (.ok x, v))
    (hp : (enterBlock site).perform p = (.ok y, q)) : v.Covers R T q := by
  obtain ⟨current, outer⟩ := h.cons
  refine h.turn (enterBlock_ok hu) (enterBlock_ok hp) (.cons ⟨current.names, ?_, ?_⟩ outer)
    (h.held.enter n.capabilities m.capabilities) (by simp)
  · simp only [enterBody, current.blocks]
  · exact Cells.Covers.push current.tracker

/-- A frame that leaks nothing in the first unit leaks nothing in the second. -/
theorem Covers.exitBlock (h : u.Covers R T p) {site : Span} {found found' : List Violation}
    (hu : (exitBlock site).run u = ((found, none), v))
    (hp : (exitBlock site).run p = ((found', none), q)) (silent : v.violations = []) :
    v.Covers R T q := by
  obtain ⟨k, blocks, tracker, c, open_, exits, leaves, turns⟩ := closeBlock_ok (exitBlock_ok hu)
  obtain ⟨k', blocks', tracker', c', open', exits', leaves', turns'⟩ :=
    closeBlock_ok (exitBlock_ok hp)
  obtain ⟨current, outer⟩ := h.cons
  have none : found = [] := (turns.silent silent).2
  subst none
  obtain ⟨held, races⟩ := h.held.leave leaves leaves'
  refine h.turn turns turns' (.cons ⟨current.names, ?_, ?_⟩ outer) held
    fun w mem => .inr (races w mem)
  · have same := current.blocks
    rw [open_, open', List.cons.injEq] at same
    exact same.2
  · exact current.tracker.exit exits exits'

theorem Covers.beginFunction (h : u.Covers R T p) (n : u.Numbered) (m : p.Numbered) {name : String}
    {site : Span} {x y : Unit} (hu : (beginFunction name site).perform u = (.ok x, v))
    (hp : (beginFunction name site).perform p = (.ok y, q)) : v.Covers R T q := by
  have turns := beginFunction_ok hu
  have turns' := beginFunction_ok hp
  refine ⟨?_, ?_, ?_, ?_⟩
  · rw [turns.bodies, turns'.bodies]
    exact .cons ⟨rfl, rfl, .cons .nil .nil⟩ h.bodies
  · rw [turns.capabilities, turns'.capabilities]
    exact h.held.enter n.capabilities m.capabilities
  · rw [turns.registry, turns'.registry]
    exact h.registry
  · rw [turns'.findings]
    exact h.tolerated

theorem Covers.endFunction [Solver σ] (h : u.Covers R T p) (n : u.Numbered) (m : p.Numbered)
    {gaveUp gaveUp' : Nat → Bool} {site : Span} {found found' : List Violation}
    (closed : u.current.blocks = [])
    (hu : (endFunction gaveUp site).run u = ((found, none), v))
    (hp : (endFunction gaveUp' site).run p = ((found', none), q)) (silent : v.violations = []) :
    v.Covers R T q := by
  obtain ⟨current, outer⟩ := h.cons
  obtain ⟨c, leaves, turns⟩ := endFunction_ok n.queue closed hu
  obtain ⟨c', leaves', turns'⟩ := endFunction_ok m.queue (current.blocks ▸ closed) hp
  have none : found = [] := (turns.silent silent).2
  subst none
  obtain ⟨held, races⟩ := h.held.leave leaves leaves'
  exact h.turn turns turns' outer held fun w mem => .inr (races w mem)

/-! ## Branches -/

theorem Covers.beginBranch (h : u.Covers R T p) (n : u.Numbered) {x : Unit}
    (hu : beginBranch.perform u = (.ok x, v)) : v.Covers R T p := by
  obtain ⟨steady, -, bodies, quiet⟩ := steady_beginBranch n hu
  refine ⟨bodies ▸ h.bodies, ?_, steady.registry.trans h.registry, h.tolerated⟩
  exact h.held.quiet quiet ⟨rfl, rfl, rfl⟩

/-- The bodies of `l` have the outlines of those of `k` and are changed so that they are related
to what those of `k` are related to. -/
theorem forall₂_mended {P Q : Body → Body → Prop} {l k m : List Body} {f : Body → Body}
    (same : l.map Body.outline = k.map Body.outline) (row : List.Forall₂ P k m)
    (keeps : ∀ x ∈ l, ∀ y ∈ k, x.outline = y.outline → ∀ z, P y z → Q (f x) z) :
    List.Forall₂ Q (l.map f) m := by
  induction row generalizing l with
  | nil =>
    cases l with
    | nil => exact .nil
    | cons => cases same
  | @cons y z k m first _ ih =>
    cases l with
    | nil => cases same
    | cons x l =>
      simp only [List.map_cons, List.cons.injEq] at same
      refine .cons (keeps x List.mem_cons_self y List.mem_cons_self same.1 z first)
        (ih same.2 fun x' mx y' my => ?_)
      exact keeps x' (List.mem_cons_of_mem _ mx) y' (List.mem_cons_of_mem _ my)

theorem lookup_now (n : u.Counted) {b : Body} (mem : b ∈ u.bodies) :
    u.now.bodies.lookup b.id = some b.tracker.snapshot := by
  have bodies : u.now.bodies = u.bodies.map fun b => (b.id, b.tracker.snapshot) := by
    simp only [now, moment, List.map_map]
    refine List.map_congr_left fun x mx => ?_
    simp [Cells.find?_of_mem n.distinct mx]
  rw [bodies]
  exact Cells.lookup_of_mem n.distinct mem

/-- A body of one unit has its counterpart in a unit with the same outline. -/
theorem exists_counterpart (same : e.outline = u.outline) {b : Body} (mem : b ∈ u.bodies) :
    ∃ b' ∈ e.bodies, b'.outline = b.outline := by
  have bodies : e.bodies.map Body.outline = u.bodies.map Body.outline :=
    congrArg UnitOutline.bodies same
  exact List.mem_map.mp (bodies ▸ List.mem_map_of_mem mem)

/-- Bodies that are rewound to the beginning of a branch cover what they covered there. -/
theorem covers_rewound {m : List Body} (n : e.Numbered) (same : u.outline = e.outline)
    (row : List.Forall₂ (Body.Covers R) e.bodies m) :
    List.Forall₂ (Body.Covers R) (u.bodies.map (rewindBody e.now)) m := by
  refine forall₂_mended (congrArg UnitOutline.bodies same) row fun x _ y my alike z covers => ?_
  simp only [Body.outline, BodyOutline.mk.injEq] at alike
  obtain ⟨id, names, blocks, scopes⟩ := alike
  simp only [rewindBody, id, lookup_now n.toCounted my]
  exact ⟨names.trans covers.names, blocks.trans covers.blocks,
    covers.tracker.restore (n.trackers y my) scopes⟩

/-- A unit that is rewound to the beginning of a branch covers what it covered there. -/
theorem Covers.nextArm (h : e.Covers R T p) (n : e.Numbered) (same : u.outline = e.outline)
    (registry : u.registry = e.registry) {f : Fork} {rest : List Fork} {x : Unit}
    (forks : u.forks = f :: rest) (entry : f.entry = e.now)
    (hu : nextArm.perform u = (.ok x, v)) : v.Covers R T p := by
  obtain ⟨f', rest', c, forks', next, turns⟩ := nextArm_ok hu
  rw [forks, List.cons.injEq] at forks'
  obtain ⟨rfl, rfl⟩ := forks'
  rw [entry] at next turns
  refine ⟨?_, ?_, turns.registry.trans (registry.trans h.registry), h.tolerated⟩
  · rw [turns.bodies]
    exact covers_rewound n same h.bodies
  · rw [turns.capabilities]
    refine Capability.Context.Covers.quiet ?_ (Capability.Context.quiet_nextArm next) ⟨rfl, rfl, rfl⟩
    exact h.held.restore n.capabilities (congrArg UnitOutline.held same)

/-- The names and records of bodies, by scope. -/
abbrev Records := List (List (List (String × Record)))

/-- The names and records of the open bodies. -/
def records (u : CompilationUnit σ) : Records :=
  u.bodies.map fun b => b.tracker.cells.contents

theorem mem_records {b : Body} (mb : b ∈ u.bodies) {c : Cell Record}
    (mc : c ∈ b.tracker.cells.flatten) : ∃ s ∈ u.records, (c.name, c.value) ∈ s.flatten := by
  refine ⟨_, List.mem_map_of_mem mb, ?_⟩
  rw [Cells.flatten_contents]
  exact List.mem_map_of_mem mc

theorem records_eq_of_covers (row : List.Forall₂ (Body.Covers Eq) u.bodies p.bodies) :
    u.records = p.records := by
  have same : List.Forall₂ Eq u.records p.records := by
    simp only [records, List.forall₂_map_left_iff, List.forall₂_map_right_iff]
    exact row.imp fun b b' covers => Cells.Covers.contents_eq covers.tracker
  exact List.forall₂_eq_eq_eq ▸ same

/-- The records of the unit pass on what they are related to when they are joined. -/
def Joins (R : Record → Record → Prop) (u : CompilationUnit σ) : Prop :=
  ∀ s ∈ u.records, ∀ r ∈ s.flatten, Ownership.Tracker.Joins R r.2

/-- A moment with the outline of a unit knows its bodies under their numbers. -/
theorem exists_tracker_now (n : e.Numbered) (same : e.outline = u.outline) {x : Body}
    (mem : x ∈ u.bodies) :
    ∃ b ∈ e.bodies, e.now.bodies.lookup x.id = some b.tracker.snapshot ∧ b.tracker.Numbered ∧
      b.tracker.cells.outline = x.tracker.cells.outline := by
  obtain ⟨b, mb, outline⟩ := exists_counterpart same mem
  simp only [Body.outline, BodyOutline.mk.injEq] at outline
  exact ⟨b, mb, outline.1 ▸ lookup_now n.toCounted mb, n.trackers b mb, outline.2.2.2⟩

/-- A unit where arms meet covers what it covered at the end of one of them. -/
theorem Covers.endBranch (h : e.Covers R T p) (n : e.Numbered) (joins : e.Joins R)
    (same : e.outline = u.outline)
    (registry : u.registry = e.registry) {f : Fork} {rest : List Fork} {site : Span} {x : Unit}
    (forks : u.forks = f :: rest)
    (alike : ∀ m ∈ meeting (Fork.finishArm f u), ∃ a : CompilationUnit σ,
      m = a.now ∧ a.Numbered ∧ a.outline = u.outline)
    (mem : e.now ∈ meeting (Fork.finishArm f u))
    (hu : (endBranch site).perform u = (.ok x, v)) : v.Covers R T p := by
  obtain ⟨f', rest', c, forks', left, turns⟩ := endBranch_ok hu
  have quiet := Capability.Context.quiet_exitBranch left
  rw [forks, List.cons.injEq] at forks'
  obtain ⟨rfl, rfl⟩ := forks'
  refine ⟨?_, ?_, turns.registry.trans (registry.trans h.registry), h.tolerated⟩
  · rw [turns.bodies]
    refine forall₂_mended (congrArg UnitOutline.bodies same).symm h.bodies
      fun x mx y my outlines z covers => ?_
    simp only [Body.outline, BodyOutline.mk.injEq] at outlines
    obtain ⟨id, names, blocks, scopes⟩ := outlines
    refine ⟨names.trans covers.names, blocks.trans covers.blocks, ?_⟩
    -- every arm knows this body under its number, and `e` is one of the arms
    refine covers.tracker.merge site (fun c mc => ?_) ?_ (n.trackers y my) scopes.symm ?_
    · obtain ⟨s, ms, mr⟩ := mem_records my mc
      exact joins s ms _ mr
    · intro s ms
      obtain ⟨m, mm, look⟩ := List.mem_filterMap.mp ms
      obtain ⟨a, rfl, na, sa⟩ := alike m mm
      obtain ⟨b, -, known, own, outline⟩ := exists_tracker_now na sa mx
      exact ⟨b.tracker, Option.some.inj (look.symm.trans known), own, outline⟩
    · exact List.mem_filterMap.mpr ⟨e.now, mem, id ▸ lookup_now n.toCounted my⟩
  · rw [turns.capabilities]
    have outlines : ∀ {a : CompilationUnit σ}, a.outline = u.outline →
        a.capabilities.cells.outline = c.cells.outline := by
      intro a sa
      rw [quiet.cells]
      exact congrArg UnitOutline.held sa
    refine h.held.merge ?_ n.capabilities (outlines same) (List.mem_map_of_mem mem)
    intro s ms
    obtain ⟨m, mm, rfl⟩ := List.mem_map.mp ms
    obtain ⟨a, rfl, na, sa⟩ := alike m mm
    exact ⟨a.capabilities, rfl, na.capabilities, outlines sa⟩

end CompilationUnit

end ResourceSafety
