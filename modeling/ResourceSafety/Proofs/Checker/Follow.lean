import ResourceSafety.Proofs.Checker.Branch
import ResourceSafety.Proofs.Checker.Lockstep
import ResourceSafety.Proofs.Checker.Simple

/-!
# Ways that bear a doubt out

A walk over a whole program knows less about a value than a walk over a single way through it:
where arms meet, it assumes the worst.  A *doubt* is such an assumption about one value.  A way
*follows* the whole walk under a doubt when it bears the doubt out: the value is gone on the way
if the whole walk takes it to be gone, and so on.

Each request of the whole walk can be made on the way too, and the way keeps following
(`Follows.declare` and what follows it).  Where arms meet, one of them *speaks* for the join about
the doubt (`exists_speaks`): a way that followed this arm follows the join.  And a request that
gives the whole walk its first finding raises a doubt, and has a finding on every way that bears
the doubt out (`exists_doubt_access` and what follows it).

Nothing is said about the values on a way that has a finding.
-/

namespace ResourceSafety

open Logic (Action Solver)
open Ownership (Record)
open Capability (Lifecycle)

/-- An assumption about one value. -/
inductive Doubt
  /-- There is no assumption. -/
  | none
  /-- The value of a binding is gone. -/
  | gone (body binding : Nat)
  /-- A capability is consumed, or may be. -/
  | spent (capability : Nat)
  /-- A capability is not consumed. -/
  | unspent (capability : Nat)

namespace Doubt

/-- The way with the record `s` bears out what the whole walk with the record `r` assumes. -/
def Own (d : Doubt) (body id : Nat) (r s : Record) : Prop :=
  d = .gone body id → s.state.isUsable = true → r.state.isUsable = true

/-- The way with the lifecycle `k` bears out what the whole walk with the lifecycle `l`
assumes. -/
structure Held (d : Doubt) (id : Nat) (l k : Lifecycle) : Prop where
  spent : d = .spent id → k.Free → l.Free
  unspent : d = .unspent id → k.state = .consumed → l.state = .consumed

variable {d : Doubt} {i : Nat} {l k : Lifecycle}

theorem held_none : Held .none i l k := ⟨nofun, nofun⟩

/-- An accepted access makes the same of the capability on both sides. -/
theorem held_step {step : Lifecycle → Lifecycle} (uniform : Lifecycle.Uniform step) (hl : l.Free)
    (hk : k.Free) : d.Held i (step l) (step k) :=
  ⟨fun _ => uniform.free hl hk, fun _ => uniform.consumed hl hk⟩

/-- An accepted access leaves the value there on both sides, or on neither. -/
theorem own_after {r s : Record} {body : Nat} {name : String} {site : Span} {a : Ownership.Access}
    (hr : r.refusal? name site a = Option.none) (hs : s.refusal? name site a = Option.none) :
    d.Own body i (r.after site a) (s.after site a) := fun _ usable =>
  (Record.isUsable_after (Record.isUsable_of_accepted hr) site a).mpr
    ((Record.isUsable_after (Record.isUsable_of_accepted hs) site a).mp usable)

end Doubt

/-- The same names in the same places.  Unless the way has a finding, its records bear the doubt
out. -/
structure Body.Follows (d : Doubt) (clean : Prop) (b c : Body) : Prop where
  names : b.names = c.names
  blocks : b.blocks = c.blocks
  cells : b.tracker.cells.Matches (fun i r s => clean → d.Own b.id i r s) c.tracker.cells

namespace Body.Follows

variable {d : Doubt} {clean clean' : Prop} {b c : Body}

theorem find?_eq (h : b.Follows d clean c) (name : String) : b.find? name = c.find? name := by
  simp only [Body.find?, h.names, h.blocks]

theorem innerNames (h : b.Follows d clean c) : b.innerNames = c.innerNames := by
  simp only [Body.innerNames, h.names, h.blocks]

theorem mono (h : b.Follows d clean c) (less : clean' → clean) : b.Follows d clean' c :=
  ⟨h.names, h.blocks, h.cells.imp fun _ _ _ own now => own (less now)⟩

theorem addName (h : b.Follows d clean c) (x : Declared) :
    (b.addName x).Follows d clean (c.addName x) := by
  obtain ⟨names, blocks, cells⟩ := h
  simp only [Body.addName, blocks]
  split
  · exact ⟨names, rfl, cells⟩
  · exact ⟨by simp only [names], rfl, cells⟩

/-- Bodies follow by outline alone where nothing is said about the records. -/
theorem of_outline (h : b.Follows d clean c) {b' c' : Body} (left : b'.outline = b.outline)
    (right : c'.outline = c.outline) (any : ∀ i r s, clean' → d.Own b'.id i r s) :
    b'.Follows d clean' c' := by
  simp only [Body.outline, BodyOutline.mk.injEq] at left right
  obtain ⟨-, names, blocks, scopes⟩ := left
  obtain ⟨-, names', blocks', scopes'⟩ := right
  exact ⟨names.trans (h.names.trans names'.symm), blocks.trans (h.blocks.trans blocks'.symm),
    h.cells.of_outline scopes scopes' any⟩

end Body.Follows

namespace CompilationUnit

variable {σ : Type} {u v p q e a : CompilationUnit σ} {d : Doubt} {name : String} {site : Span}

/-- The way `p` follows the walk `u` of the whole, and bears the doubt out unless it has a
finding. -/
structure Follows (d : Doubt) (u p : CompilationUnit σ) : Prop where
  bodies : List.Forall₂ (Body.Follows d (p.violations = [])) u.bodies p.bodies
  held : u.capabilities.cells.Matches (fun i l k => p.violations = [] → d.Held i l k)
    p.capabilities.cells
  registry : u.registry = p.registry
  lockstep : ∃ j, p.Lockstep j
  queue : p.discharger.queue = []

namespace Follows

theorem numbered (h : u.Follows d p) : p.Numbered := by
  obtain ⟨j, lock⟩ := h.lockstep
  exact ⟨lock.toCounted, h.queue⟩

theorem cons (h : u.Follows d p) : u.current.Follows d (p.violations = []) p.current ∧
    List.Forall₂ (Body.Follows d (p.violations = [])) u.bodies.tail p.bodies.tail := by
  have bodies := h.bodies
  rw [bodies_eq_cons u, bodies_eq_cons p] at bodies
  cases bodies with
  | cons first rest => exact ⟨first, rest⟩

/-- Both change. -/
theorem turn (h : u.Follows d p) {bodies bodies' : List Body} {c c' : Capability.Context}
    {found found' : List Violation} (hu : u.Turns v bodies c found)
    (hp : p.Turns q bodies' c' found')
    (row : List.Forall₂ (Body.Follows d (q.violations = [])) bodies bodies')
    (held : c.cells.Matches (fun i l k => q.violations = [] → d.Held i l k) c'.cells)
    (lock : ∃ j, q.Lockstep j) : v.Follows d q where
  bodies := by rw [hu.bodies, hp.bodies]; exact row
  held := by rw [hu.capabilities, hp.capabilities]; exact held
  registry := by rw [hu.registry, hp.registry]; exact h.registry
  lockstep := lock
  queue := hp.queue.trans h.queue

/-- Without a doubt only outlines matter. -/
theorem of_outline (h : u.Follows d p) (left : v.outline = u.outline) (right : q.outline = p.outline)
    (registry : v.registry = u.registry) (registry' : q.registry = p.registry)
    (lock : ∃ j, q.Lockstep j) (queue : q.discharger.queue = []) : v.Follows .none q where
  bodies := by
    have start : List.Forall₂ (Body.Follows .none (q.violations = [])) u.bodies p.bodies :=
      h.bodies.imp fun b c follows =>
        ⟨follows.names, follows.blocks, follows.cells.imp fun _ _ _ _ _ => nofun⟩
    exact Cells.forall₂_of_map_eq start (congrArg UnitOutline.bodies left)
      (congrArg UnitOutline.bodies right) fun b c b' c' follows left right =>
        follows.of_outline left right fun _ _ _ _ => nofun
  held := h.held.of_outline (congrArg UnitOutline.held left) (congrArg UnitOutline.held right)
    fun _ _ _ _ => Doubt.held_none
  registry := registry.trans (h.registry.trans registry'.symm)
  lockstep := lock
  queue := queue

/-- A way that bears a doubt out follows without one. -/
theorem forget (h : u.Follows d p) : u.Follows .none p :=
  h.of_outline rfl rfl rfl rfl h.lockstep h.queue

/-- A way goes on following a walk that only changes values, without a doubt. -/
theorem steady (h : u.Follows d p) (s : u.Steady v) : v.Follows .none p :=
  h.of_outline s.outline rfl s.registry rfl h.lockstep h.queue

/-! ## Names -/

/-- A name that is visible in the whole walk is visible on the way. -/
theorem exists_page (h : u.Follows d p) {x : Body × Declared} (located : u.locate? name = some x)
    {j : Journal} (lock : p.Lockstep j) : ∃ page made, j.find? name = some (page, made) := by
  obtain ⟨found, -⟩ := find?_of_locate? located
  obtain ⟨c, found'⟩ := Cells.exists_find?_of_forall₂ h.bodies
    (fun x y follows => by rw [follows.find?_eq]) found
  cases page : j.find? name with
  | some x => exact ⟨_, _, rfl⟩
  | none =>
    have missing := lock.find?_eq_none.mp page
    have meant := List.find?_some found'
    rw [locate?, List.findSome?_eq_none_iff] at missing
    have none := missing c (List.mem_of_find?_eq_some found')
    rw [Option.map_eq_none_iff] at none
    simp [none] at meant

/-- A name means the same in the whole walk and on the way, in bodies of the same place. -/
theorem located (h : u.Follows d p) (n : u.Counted) {b b' : Body} {x x' : Declared}
    (hu : u.locate? name = some (b, x)) (hp : p.locate? name = some (b', x')) :
    x = x' ∧ b.Follows d (p.violations = []) b' ∧
      List.Forall₂ (fun x y => x.Follows d (p.violations = []) y ∧ (x.id = b.id ↔ y.id = b'.id))
        u.bodies p.bodies := by
  obtain ⟨found, meant⟩ := find?_of_locate? hu
  obtain ⟨found', meant'⟩ := find?_of_locate? hp
  obtain ⟨bodies, places⟩ := Cells.found_together h.bodies
    (fun x y follows => by rw [follows.find?_eq]) n.distinct h.numbered.distinct found found'
  rw [bodies.find?_eq, meant'] at meant
  exact ⟨(Option.some.inj meant).symm, bodies, places⟩

/-! ## Accesses -/

theorem access (h : u.Follows d p) (n : u.Numbered) {a : Ownership.Access} {w : Option Violation}
    (hu : (access a name site).perform u = (.ok w, v)) (firm : d = .none ∨ v.violations = []) :
    ∃ y q, (CompilationUnit.access a name site).perform p = (.ok y, q) ∧ v.Follows d q := by
  obtain ⟨b, x, tracker, c, located, accessed, remarked, turns⟩ := access_ok hu
  obtain ⟨j, lock⟩ := h.lockstep
  obtain ⟨page, made, visible⟩ := h.exists_page located lock
  obtain ⟨y, q, hp, lock'⟩ := lock.access visible a site
  refine ⟨y, q, hp, ?_⟩
  obtain ⟨b', x', tracker', c', located', accessed', remarked', turns'⟩ := access_ok hp
  obtain rfl | silent := firm
  · -- without a doubt, outlines are kept
    exact h.of_outline (kept_access n hu).2 (kept_access h.numbered hp).2 turns.registry
      turns'.registry ⟨j, lock'⟩ (turns'.queue.trans h.queue)
  have accepted : w = none := by simpa using (turns.silent silent).2
  subst accepted
  have less : q.violations = [] → p.violations = [] := fun clean => (turns'.silent clean).1
  obtain ⟨-, bodies, places⟩ := h.located n.toCounted located located'
  have nb := n.trackers b (mem_bodies_of_locate? located)
  have nb' := h.numbered.trackers b' (mem_bodies_of_locate? located')
  obtain ⟨r, found, accepted, -, cells⟩ := Ownership.Tracker.access_ok nb accessed
  obtain ⟨s, found', answer, -, cells'⟩ := Ownership.Tracker.access_ok nb' accessed'
  have records : tracker.cells.Matches
      (fun i r s => q.violations = [] → d.Own b.id i r s) tracker'.cells := by
    cases y with
    | some y =>
      -- the way has a finding now
      have dirty : q.violations ≠ [] := fun clean => by simpa using (turns'.silent clean).2
      exact bodies.cells.of_outline (Ownership.Tracker.outline_access nb accessed).1
        (Ownership.Tracker.outline_access nb' accessed').1 fun _ _ _ clean => absurd clean dirty
    | none =>
      simp only [Option.isNone_none, if_true] at cells cells'
      rw [cells, cells']
      refine Cells.Matches.assign (bodies.cells.imp fun _ _ _ own clean => own (less clean))
        nb.distinct nb'.distinct (Ownership.Tracker.find?_cells found)
        (Ownership.Tracker.find?_cells found') fun _ => ?_
      exact Doubt.own_after accepted.symm answer.symm
  refine h.turn turns turns' (forall₂_changed places (fun x y pair same => ?_)
    fun x y pair => pair.mono less) ?_ ⟨j, lock'⟩
  · exact ⟨pair.names, pair.blocks, by rw [same]; exact records⟩
  · rw [(remarked.quiet n.capabilities).cells, (remarked'.quiet h.numbered.capabilities).cells]
    exact h.held.imp fun _ _ _ held clean => held (less clean)

theorem capabilityAccess (h : u.Follows d p) (n : u.Numbered)
    {op : Capability.Context → String → Span → Except Fault (Option Violation × Capability.Context)}
    {step : Span → Lifecycle → Lifecycle} {kind : Capability.AccessKind}
    (accesses : Capability.Context.Accesses op step kind) (uniform : Lifecycle.Uniform (step site))
    {w : Option Violation} (hu : (capabilityAccess op name site).perform u = (.ok w, v))
    (firm : d = .none ∨ v.violations = []) :
    ∃ y q, (CompilationUnit.capabilityAccess op name site).perform p = (.ok y, q) ∧
      v.Follows d q := by
  obtain ⟨b, x, located, turns⟩ := capabilityAccess_ok hu
  obtain ⟨j, lock⟩ := h.lockstep
  obtain ⟨page, made, visible⟩ := h.exists_page located lock
  obtain ⟨y, q, hp, lock'⟩ := lock.capabilityAccess visible accesses site
  refine ⟨y, q, hp, ?_⟩
  obtain ⟨b', x', located', turns'⟩ := capabilityAccess_ok hp
  obtain ⟨rfl, -, -⟩ := h.located n.toCounted located located'
  split at turns
  next has =>
    rw [if_pos has] at turns'
    obtain ⟨c, reached, turns⟩ := turns
    obtain ⟨c', reached', turns'⟩ := turns'
    obtain ⟨r, found, acts⟩ := accesses.acts_ok reached
    obtain ⟨s, found', acts'⟩ := accesses.acts_ok reached'
    have n' := h.numbered.capabilities
    have mem := Capability.Context.mem_table_of_find? found
    have mem' := Capability.Context.mem_table_of_find? found'
    have less : q.violations = [] → p.violations = [] := fun clean => (turns'.silent clean).1
    refine h.turn turns turns' (h.bodies.imp fun _ _ pair => pair.mono less) ?_ ⟨j, lock'⟩
    have level := (acts.level n.capabilities mem).held
    have level' := (acts'.level n' mem').held
    obtain rfl | silent := firm
    · exact h.held.of_outline level level' fun _ _ _ _ => Doubt.held_none
    cases y with
    | some y =>
      -- the way has a finding now
      have dirty : q.violations ≠ [] := fun clean => by simpa using (turns'.silent clean).2
      exact h.held.of_outline level level' fun _ _ _ clean => absurd clean dirty
    | none =>
      have accepted : w = none := by simpa using (turns.silent silent).2
      have free := acts.free accepted
      have free' := acts'.free rfl
      rw [(acts.accepted free).1, (acts'.accepted free').1,
        (Capability.Context.adjusts_note n.capabilities mem _ _ _).cells,
        (Capability.Context.adjusts_note n' mem' _ _ _).cells]
      exact Cells.Matches.assign (h.held.imp fun _ _ _ held clean => held (less clean))
        n.capabilities.distinct n'.distinct (Capability.Context.find?_cells found)
        (Capability.Context.find?_cells found') fun _ => Doubt.held_step uniform free free'
  next lacks =>
    rw [if_neg lacks] at turns'
    rw [turns, turns']
    exact h

/-! ## Declarations and scopes -/

theorem declare (h : u.Follows d p) (n : u.Numbered) {type : Option Ty} {x : Declared}
    (hu : (declare name type site).perform u = (.ok x, v)) :
    ∃ y q, (CompilationUnit.declare name type site).perform p = (.ok y, q) ∧ v.Follows d q := by
  obtain ⟨current, outer⟩ := h.cons
  obtain ⟨j, lock⟩ := h.lockstep
  obtain ⟨y, q, hp⟩ := lock.exists_declare (current.innerNames ▸ declare_new hu) type site
  refine ⟨y, q, hp, ?_⟩
  obtain ⟨tracker, c, defined, held, turns⟩ := declare_ok hu
  obtain ⟨tracker', c', defined', held', turns'⟩ := declare_ok hp
  have same : p.declared name type site = u.declared name type site := by
    simp only [declared, h.registry]
  rw [same] at held' turns'
  have clean : q.violations = p.violations := turns'.findings
  obtain ⟨-, -, cells⟩ := held_declare n.capabilities held
  obtain ⟨-, -, cells'⟩ := held_declare h.numbered.capabilities held'
  refine h.turn turns turns' (.cons ?_ (clean ▸ outer)) ?_ ⟨_, lock.declared hp⟩
  · refine Body.Follows.addName (b := { u.current with tracker })
      (c := { p.current with tracker := tracker' }) ⟨current.names, current.blocks, ?_⟩ _
    rw [(Ownership.Tracker.cells_define defined).1, (Ownership.Tracker.cells_define defined').1,
      clean]
    exact current.cells.add ⟨rfl, fun _ _ _ => rfl⟩
  · rw [cells, cells', clean]
    split
    · refine h.held.add ⟨rfl, fun _ => ⟨fun _ free => free, fun _ consumed => ?_⟩⟩
      cases consumed
    · exact h.held

theorem enterBlock (h : u.Follows d p) (n : u.Numbered) {x : Unit}
    (hu : (enterBlock site).perform u = (.ok x, v)) :
    ∃ q, (CompilationUnit.enterBlock site).perform p = (.ok (), q) ∧ v.Follows d q := by
  obtain ⟨current, outer⟩ := h.cons
  obtain ⟨j, lock⟩ := h.lockstep
  obtain ⟨q, hp, lock'⟩ := lock.enterBlock site
  refine ⟨q, hp, ?_⟩
  have turns := enterBlock_ok hp
  have clean : q.violations = p.violations := turns.findings
  refine h.turn (enterBlock_ok hu) turns (clean ▸ .cons ⟨current.names, ?_, ?_⟩ outer) ?_ ⟨_, lock'⟩
  · simp only [enterBody, current.blocks]
  · exact current.cells.push
  · rw [Capability.Context.cells_enter n.capabilities,
      Capability.Context.cells_enter h.numbered.capabilities, clean]
    exact h.held.push

theorem exitBlock (h : u.Follows d p) {found : List Violation}
    (hu : (exitBlock site).run u = ((found, none), v)) :
    ∃ found' q, (CompilationUnit.exitBlock site).run p = ((found', none), q) ∧ v.Follows d q := by
  obtain ⟨current, outer⟩ := h.cons
  obtain ⟨j, lock⟩ := h.lockstep
  obtain ⟨k, blocks, tracker, c, open_, exits, leaves, turns⟩ := closeBlock_ok (exitBlock_ok hu)
  have there := current.blocks
  rw [open_] at there
  obtain ⟨found', q, hp, lock', -⟩ := lock.closeBlock site there.symm
  refine ⟨found', q, ?_, ?_⟩
  · rw [CompilationUnit.exitBlock, run_get_bind, if_neg (by simp [lock.live])]
    exact hp
  obtain ⟨k', blocks', tracker', c', open', exits', leaves', turns'⟩ := closeBlock_ok hp
  rw [open', List.cons.injEq] at there
  have less : q.violations = [] → p.violations = [] := fun clean => (turns'.silent clean).1
  have row := outer.imp fun _ _ pair => Body.Follows.mono pair less
  refine h.turn turns turns' (.cons ⟨current.names, there.2, ?_⟩ row) ?_ ⟨_, lock'⟩
  · show Cells.Matches _ tracker.cells tracker'.cells
    rw [(Ownership.Tracker.cells_exit exits).1, (Ownership.Tracker.cells_exit exits').1]
    exact (current.mono less).cells.tail
  · rw [leaves.cells, leaves'.cells]
    exact (h.held.imp fun _ _ _ held clean => held (less clean)).tail

theorem beginFunction (h : u.Follows d p) (n : u.Numbered) {x : Unit}
    (hu : (beginFunction name site).perform u = (.ok x, v)) :
    ∃ q, (CompilationUnit.beginFunction name site).perform p = (.ok (), q) ∧ v.Follows d q := by
  obtain ⟨j, lock⟩ := h.lockstep
  obtain ⟨q, hp, lock'⟩ := lock.beginFunction name site
  refine ⟨q, hp, ?_⟩
  have turns := beginFunction_ok hu
  have turns' := beginFunction_ok hp
  have clean : q.violations = p.violations := turns'.findings
  refine ⟨?_, ?_, ?_, ⟨_, lock'⟩, turns'.queue.trans h.queue⟩
  · rw [turns.bodies, turns'.bodies, clean]
    exact .cons ⟨rfl, rfl, .cons .nil .nil⟩ h.bodies
  · rw [turns.capabilities, turns'.capabilities, clean,
      Capability.Context.cells_enter n.capabilities,
      Capability.Context.cells_enter h.numbered.capabilities]
    exact h.held.push
  · exact turns.registry.trans (h.registry.trans turns'.registry.symm)

theorem endFunction [Solver σ] (h : u.Follows d p) (n : u.Numbered) {gaveUp : Nat → Bool}
    (gaveUp' : Nat → Bool) {found : List Violation} (closed : u.current.blocks = [])
    (hu : (endFunction gaveUp site).run u = ((found, none), v)) :
    ∃ found' q, (CompilationUnit.endFunction gaveUp' site).run p = ((found', none), q) ∧
      v.Follows d q := by
  obtain ⟨current, outer⟩ := h.cons
  obtain ⟨j, lock⟩ := h.lockstep
  obtain ⟨c, leaves, turns⟩ := endFunction_ok n.queue closed hu
  have inside : p.functions ≠ [] := by
    have depth := congrArg List.length turns.bodies
    have depth' := h.bodies.length_eq
    rw [List.length_tail, length_functions, length_functions] at depth
    rw [length_functions, length_functions] at depth'
    rw [← List.length_pos_iff]
    omega
  obtain ⟨found', fault, q, hp, lock', flushed⟩ := lock.endFunction gaveUp' site inside
  rw [run_flushQueue gaveUp' h.queue] at flushed
  obtain rfl := flushed
  refine ⟨found', q, hp, ?_⟩
  obtain ⟨c', leaves', turns'⟩ := endFunction_ok h.queue (current.blocks ▸ closed) hp
  have less : q.violations = [] → p.violations = [] := fun clean => (turns'.silent clean).1
  refine h.turn turns turns' (outer.imp fun _ _ pair => pair.mono less) ?_ ⟨_, lock'⟩
  rw [leaves.cells, leaves'.cells]
  exact (h.held.imp fun _ _ _ held clean => held (less clean)).tail

/-! ## Branches -/

theorem beginBranch (h : u.Follows d p) (n : u.Numbered) {x : Unit}
    (hu : beginBranch.perform u = (.ok x, v)) : v.Follows d p := by
  obtain ⟨steady, -, bodies, quiet⟩ := steady_beginBranch n hu
  refine ⟨bodies ▸ h.bodies, ?_, steady.registry.trans h.registry, h.lockstep, h.queue⟩
  rw [quiet.cells]
  exact h.held

/-- A way that followed up to a branch follows at the beginning of its next arm. -/
theorem nextArm (h : e.Follows d p) (n : e.Numbered) {f : Fork} {outer : List Fork}
    (opened : e.Opened u f outer) {x : Unit} (hu : nextArm.perform u = (.ok x, v)) :
    v.Follows d p := by
  obtain ⟨f', rest, c, forks, next, turns⟩ := nextArm_ok hu
  rw [opened.forks, List.cons.injEq] at forks
  obtain ⟨rfl, rfl⟩ := forks
  rw [opened.entry] at next turns
  have same := opened.steady.outline
  refine ⟨?_, ?_, turns.registry.trans (opened.steady.registry.trans h.registry), h.lockstep,
    h.queue⟩
  · rw [turns.bodies]
    refine forall₂_mended (congrArg UnitOutline.bodies same) h.bodies
      fun x _ y my alike z follows => ?_
    simp only [Body.outline, BodyOutline.mk.injEq] at alike
    obtain ⟨id, names, blocks, scopes⟩ := alike
    simp only [rewindBody, id, lookup_now n.toCounted my]
    refine ⟨names.trans follows.names, blocks.trans follows.blocks, ?_⟩
    show Cells.Matches (fun i r s => p.violations = [] → d.Own y.id i r s)
      (x.tracker.restore y.tracker.snapshot).cells z.tracker.cells
    rw [Ownership.Tracker.cells_restore]
    refine Cells.Matches.mend follows.cells scopes fun c mem now w own => ?_
    rw [Ownership.Tracker.lookup_snapshot (n.trackers y my) mem]
    exact own
  · rw [turns.capabilities, (Capability.Context.quiet_nextArm next).cells,
      (Capability.Context.adjusts_restore u.capabilities _).cells]
    refine Cells.Matches.mend h.held (congrArg UnitOutline.held same) fun c mem now w held => ?_
    rw [show e.now.capabilities = e.capabilities.snapshot from rfl,
      Capability.Context.lookup_snapshot n.capabilities mem]
    exact fun clean => ⟨(held clean).spent, (held clean).unspent⟩

end Follows

end CompilationUnit

/-- What the moment bears out about the doubt holds where the arms meet. -/
def Moment.Speaks (arms : List Moment) (m : Moment) : Doubt → Prop
  | .none => True
  | .gone body id => ∀ s, m.bodies.lookup body = some s → ∀ r, s.lookup id = some r →
      r.state.isUsable = true → ∀ now,
      (Ownership.Tracker.met (arms.filterMap (·.bodies.lookup body)) id now).state.isUsable = true
  | .spent id => ∀ l, m.capabilities.lookup id = some l → l.Free →
      ∀ now, (Capability.Context.met (arms.map Moment.capabilities) id now).Free
  | .unspent id => ∀ l, m.capabilities.lookup id = some l → l.state = .consumed →
      ∀ now, (Capability.Context.met (arms.map Moment.capabilities) id now).state = .consumed

/-- Whatever the doubt, one of the arms that meet speaks for all of them. -/
theorem exists_speaks {arms : List Moment} (nonempty : arms ≠ []) (simple : ∀ m ∈ arms, m.Simple)
    (d : Doubt) : ∃ m ∈ arms, m.Speaks arms d := by
  have capabilities : arms.map Moment.capabilities ≠ [] := by simpa using nonempty
  cases d with
  | none =>
    obtain ⟨m, mem⟩ := List.exists_mem_of_ne_nil arms nonempty
    exact ⟨m, mem, trivial⟩
  | gone body id =>
    by_cases known : arms.filterMap (·.bodies.lookup body) = []
    · -- no arm knows the body
      obtain ⟨m, mem⟩ := List.exists_mem_of_ne_nil arms nonempty
      refine ⟨m, mem, fun s look => ?_⟩
      rw [List.filterMap_eq_nil_iff] at known
      exact absurd look (by simp [known m mem])
    · obtain ⟨s, ms, speaks⟩ := Ownership.Tracker.exists_usable_met known id
      obtain ⟨m, mem, look⟩ := List.mem_filterMap.mp ms
      refine ⟨m, mem, fun s' look' => ?_⟩
      cases look.symm.trans look'
      exact speaks
  | spent id =>
    obtain ⟨s, ms, speaks⟩ := Capability.Context.exists_free_met (fun s ms => by
      obtain ⟨m, mem, rfl⟩ := List.mem_map.mp ms
      exact (simple m mem).capabilities) capabilities id
    obtain ⟨m, mem, rfl⟩ := List.mem_map.mp ms
    exact ⟨m, mem, speaks⟩
  | unspent id =>
    obtain ⟨s, ms, speaks⟩ := Capability.Context.exists_consumed_met capabilities id
    obtain ⟨m, mem, rfl⟩ := List.mem_map.mp ms
    exact ⟨m, mem, speaks⟩

namespace CompilationUnit

variable {σ : Type} {u v p q e a : CompilationUnit σ} {d : Doubt} {name : String} {site : Span}

/-- A way that followed the arm that speaks for all follows where the arms meet. -/
theorem Follows.endBranch (h : a.Follows d p) (n : a.Numbered) (same : a.outline = u.outline)
    (registry : u.registry = a.registry) {f : Fork} {outer : List Fork}
    (forks : u.forks = f :: outer) (speaks : a.now.Speaks (meeting (Fork.finishArm f u)) d)
    {x : Unit} (hu : (endBranch site).perform u = (.ok x, v)) : v.Follows d p := by
  obtain ⟨f', rest, c, forks', left, turns⟩ := endBranch_ok hu
  rw [forks, List.cons.injEq] at forks'
  obtain ⟨rfl, rfl⟩ := forks'
  refine ⟨?_, ?_, turns.registry.trans (registry.trans h.registry), h.lockstep, h.queue⟩
  · rw [turns.bodies]
    refine forall₂_mended (congrArg UnitOutline.bodies same).symm h.bodies
      fun x _ y my alike z follows => ?_
    simp only [Body.outline, BodyOutline.mk.injEq] at alike
    obtain ⟨id, names, blocks, scopes⟩ := alike
    refine ⟨names.trans follows.names, blocks.trans follows.blocks, ?_⟩
    show Cells.Matches (fun i r s => p.violations = [] → d.Own x.id i r s)
      (x.tracker.merge site _).cells z.tracker.cells
    rw [Ownership.Tracker.cells_met, id]
    refine Cells.Matches.mend follows.cells scopes fun c mem now w own clean => ?_
    rintro rfl usable
    exact speaks _ (lookup_now n.toCounted my) _
      (Ownership.Tracker.lookup_snapshot (n.trackers y my) mem) (own clean rfl usable) now
  · have quiet := Capability.Context.quiet_exitBranch left
    rw [turns.capabilities, (Capability.Context.adjusts_met c _).cells, quiet.cells]
    refine Cells.Matches.mend h.held (congrArg UnitOutline.held same).symm
      fun c mem now w held clean => ?_
    have look := Capability.Context.lookup_snapshot n.capabilities mem
    constructor
    · rintro rfl free
      exact speaks _ look ((held clean).spent rfl free) now
    · rintro rfl consumed
      exact speaks _ look ((held clean).unspent rfl consumed) now

/-! ## Findings -/

/-- A first finding was found by the request. -/
theorem Turns.ne_nil {bodies : List Body} {c : Capability.Context} {found : List Violation}
    (h : u.Turns v bodies c found) (clean : u.violations = []) (dirty : v.violations ≠ []) :
    found ≠ [] := by
  rintro rfl
  exact dirty (h.findings.trans clean)

/-- The access that gives the whole walk its first finding is reported on every way that bears
out that the value is gone. -/
theorem exists_doubt_access (n : u.Numbered) (simple : u.Simple) {b : Ownership.Access}
    {w : Option Violation} (hu : (access b name site).perform u = (.ok w, v))
    (clean : u.violations = []) (dirty : v.violations ≠ []) :
    ∃ d, ∀ p, u.Follows d p → ∀ y q, (access b name site).perform p = (.ok y, q) →
      q.violations ≠ [] := by
  obtain ⟨b, x, tracker, c, located, accessed, -, turns⟩ := access_ok hu
  have mem := mem_bodies_of_locate? located
  obtain ⟨r, found, refused, -, -⟩ := Ownership.Tracker.access_ok (n.trackers b mem) accessed
  refine ⟨.gone b.id r.id, fun p h y q hp none => ?_⟩
  obtain ⟨b', x', tracker', c', located', accessed', -, turns'⟩ := access_ok hp
  obtain ⟨-, bodies, -⟩ := h.located n.toCounted located located'
  have n' := h.numbered.trackers b' (mem_bodies_of_locate? located')
  obtain ⟨s, found', answer, -, -⟩ := Ownership.Tracker.access_ok n' accessed'
  obtain ⟨silent, accepted⟩ := turns'.silent none
  -- the way accepts the access, so the value is there on it and in the whole walk
  have own := bodies.cells.found (n.trackers b mem).distinct n'.distinct
    (Ownership.Tracker.find?_cells found) (Ownership.Tracker.find?_cells found')
  have usable := own silent rfl
    (Record.isUsable_of_accepted (answer.symm.trans (by simpa using accepted)))
  have idle : r.record.Idle := simple.bodies b mem r.cell
    (List.mem_of_find?_eq_some (Ownership.Tracker.find?_cells found))
  rw [idle.refusal_eq_none_iff.mpr usable] at refused
  exact turns.ne_nil clean dirty (by simp [refused])

/-- The access to a capability that gives the whole walk its first finding is reported on every
way that bears out that the capability is consumed. -/
theorem exists_doubt_capabilityAccess (n : u.Numbered) (simple : u.Simple)
    {op : Capability.Context → String → Span → Except Fault (Option Violation × Capability.Context)}
    {step : Span → Lifecycle → Lifecycle} {kind : Capability.AccessKind}
    (accesses : Capability.Context.Accesses op step kind) (uniform : Lifecycle.Uniform (step site))
    {w : Option Violation} (hu : (capabilityAccess op name site).perform u = (.ok w, v))
    (clean : u.violations = []) (dirty : v.violations ≠ []) :
    ∃ d, ∀ p, u.Follows d p → ∀ y q, (capabilityAccess op name site).perform p = (.ok y, q) →
      q.violations ≠ [] := by
  obtain ⟨b, x, located, turns⟩ := capabilityAccess_ok hu
  split at turns
  next has =>
    obtain ⟨c, reached, turns⟩ := turns
    obtain ⟨r, found, acts⟩ := accesses.acts_ok reached
    have mem := Capability.Context.mem_table_of_find? found
    refine ⟨.spent r.id, fun p h y q hp none => ?_⟩
    obtain ⟨b', x', located', turns'⟩ := capabilityAccess_ok hp
    obtain ⟨rfl, -, -⟩ := h.located n.toCounted located located'
    rw [if_pos has] at turns'
    obtain ⟨c', reached', turns'⟩ := turns'
    obtain ⟨s, found', acts'⟩ := accesses.acts_ok reached'
    obtain ⟨silent, accepted⟩ := turns'.silent none
    have held := h.held.found n.capabilities.distinct h.numbered.capabilities.distinct
      (Capability.Context.find?_cells found) (Capability.Context.find?_cells found')
    have free := (held silent).spent rfl (acts'.free (by simpa using accepted))
    have reported := simple.capabilities.reported_iff uniform acts mem
    have unreported : w = Option.none := by
      cases w with
      | none => rfl
      | some w => exact absurd free (reported.mp rfl)
    exact turns.ne_nil clean dirty (by simp [unreported])
  next => exact absurd (turns ▸ clean) dirty

/-- The end of a frame that gives the whole walk its first finding is reported on every way that
bears out that a capability of the frame is not consumed. -/
theorem exists_doubt_leave (simple : u.Simple) {found : List Violation} {c : Capability.Context}
    (leaves : u.capabilities.Leaves found c) (leaks : found ≠ []) :
    ∃ d, ∀ p, u.Follows d p → p.violations = [] → ∀ found' c',
      p.capabilities.Leaves found' c' → found' ≠ [] := by
  rw [ne_eq, simple.capabilities.silent_iff leaves] at leaks
  push Not at leaks
  obtain ⟨x, mem, alive⟩ := leaks
  refine ⟨.unspent x.id, fun p h clean found' c' leaves' none => alive ?_⟩
  obtain ⟨y, my, pair⟩ := h.held.exists_pair_head mem
  exact (pair.2 clean).unspent rfl (leaves'.silent none y my)

theorem exists_doubt_exitBlock (simple : u.Simple) {found : List Violation}
    (hu : (exitBlock site).run u = ((found, none), v))
    (clean : u.violations = []) (dirty : v.violations ≠ []) :
    ∃ d, ∀ p, u.Follows d p → ∀ found' q, (exitBlock site).run p = ((found', none), q) →
      q.violations ≠ [] := by
  obtain ⟨_, _, _, c, -, -, leaves, turns⟩ := closeBlock_ok (exitBlock_ok hu)
  obtain ⟨d, reported⟩ := exists_doubt_leave simple leaves (turns.ne_nil clean dirty)
  refine ⟨d, fun p h found' q hp none => ?_⟩
  obtain ⟨_, _, _, c', -, -, leaves', turns'⟩ := closeBlock_ok (exitBlock_ok hp)
  obtain ⟨silent, kept⟩ := turns'.silent none
  exact reported p h silent found' c' leaves' kept

theorem exists_doubt_endFunction [Solver σ] (n : u.Numbered) (simple : u.Simple)
    {gaveUp : Nat → Bool} {found : List Violation} (closed : u.current.blocks = [])
    (hu : (endFunction gaveUp site).run u = ((found, none), v))
    (clean : u.violations = []) (dirty : v.violations ≠ []) :
    ∃ d, ∀ p, u.Follows d p → ∀ gaveUp' found' q,
      (endFunction gaveUp' site).run p = ((found', none), q) → q.violations ≠ [] := by
  obtain ⟨c, leaves, turns⟩ := endFunction_ok n.queue closed hu
  obtain ⟨d, reported⟩ := exists_doubt_leave simple leaves (turns.ne_nil clean dirty)
  refine ⟨d, fun p h gaveUp' found' q hp none => ?_⟩
  obtain ⟨c', leaves', turns'⟩ := endFunction_ok h.queue (h.cons.1.blocks ▸ closed) hp
  obtain ⟨silent, kept⟩ := turns'.silent none
  exact reported p h silent found' c' leaves' kept

theorem follows_fresh (d : Doubt) (name : String) (registry : Registry) (config : CheckerConfig)
    (run : String) (opening : Bool → Except Fault σ) :
    (fresh name registry config run opening).Follows d
      (fresh name registry config run opening) where
  bodies := .cons ⟨rfl, rfl, .cons .nil .nil⟩ .nil
  held := .cons .nil .nil
  registry := rfl
  lockstep := ⟨_, lockstep_fresh name registry config run opening⟩
  queue := rfl

end CompilationUnit

end ResourceSafety
