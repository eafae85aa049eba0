import ResourceSafety.Proofs.Capability.Access
import ResourceSafety.Proofs.Scope.Cells

/-!
# Contexts that cover others

A walk over a whole program joins lifecycles where arms meet.  A walk over a single
way through it does not.  The lifecycle of the first *covers* that of the second when
two opposite approximations hold together.

* What the single way consumed, the whole walk knows to be consumed or remembers as
  possibly consumed.  So an access that the whole walk accepts is accepted on the
  single way.
* What the whole walk knows to be consumed, the single way consumed.  So what does not
  leak in the whole walk does not leak on the single way.

A possible consumption is remembered by its site alone.  Both halves therefore only
survive a join because the consuming site of a consumed capability is never zero.
-/

namespace ResourceSafety.Capability

/-! ## Lifecycles -/

namespace Lifecycle

/-- What the first lifecycle says about the way that led to the second. -/
structure Covers (l p : Lifecycle) : Prop where
  /-- A consumption on the way is known, or remembered as possible. -/
  noticed : p.state = .consumed → l.state = .consumed ∨ l.mayConsumedAt ≠ .zero
  /-- A known consumption is one on the way. -/
  certain : l.state = .consumed → p.state = .consumed
  sited : l.state = .consumed → l.consumedAt ≠ .zero
  /-- A single way leaves nothing open. -/
  settled : p.mayConsumedAt = .zero

theorem firstSite_ne_zero {sites : List Span} {s : Span} (mem : s ∈ sites) (set : s ≠ .zero) :
    firstSite sites ≠ .zero := by
  have found : (sites.find? (!·.isZero)).isSome := by
    rw [List.find?_isSome]
    exact ⟨s, mem, by simpa [isZero_eq_false_iff] using set⟩
  obtain ⟨x, first⟩ := Option.isSome_iff_exists.mp found
  have := List.find?_some first
  simpa [firstSite, first, isZero_eq_false_iff] using this

namespace Covers

variable {l p : Lifecycle}

theorem fresh : Covers {} {} :=
  ⟨nofun, nofun, nofun, rfl⟩

theorem free (h : l.Covers p) (f : l.Free) : p.Free :=
  ⟨fun consumed => (h.noticed consumed).elim f.1 fun open_ => open_ f.2, h.settled⟩

theorem use (h : l.Covers p) : Covers { l with state := .inUse } { p with state := .inUse } :=
  ⟨nofun, nofun, nofun, h.settled⟩

theorem consume {site : Span} (set : site ≠ .zero) : (l.consume site).Covers (p.consume site) :=
  ⟨fun _ => .inl rfl, fun _ => rfl, fun _ => set, rfl⟩

theorem share (h : l.Covers p) (b b' : Bool) :
    Covers { l with shared := b } { p with shared := b' } :=
  ⟨h.noticed, h.certain, h.sited, h.settled⟩

theorem rewind (h : l.Covers p) (now : Lifecycle) : (now.rewind l).Covers p :=
  ⟨h.noticed, h.certain, h.sited, h.settled⟩

/-- The arms meet in a lifecycle that covers what the one of each arm covers. -/
theorem merge {first : Lifecycle} {rest : List Lifecycle} (h : l.Covers p)
    (mem : l ∈ first :: rest) : (first.merge rest).Covers p := by
  have remembered : l.mayConsumedAt ≠ .zero →
      firstSite ((first :: rest).map (·.mayConsumedAt)) ≠ .zero :=
    firstSite_ne_zero (List.mem_map_of_mem mem)
  have placed : l.state = .consumed →
      firstSite ((first :: rest).map (·.consumedAt)) ≠ .zero :=
    fun consumed => firstSite_ne_zero (List.mem_map_of_mem mem) (h.sited consumed)
  simp only [Lifecycle.merge]
  split
  next every =>
    have consumed : l.state = .consumed := by
      simpa using List.all_eq_true.mp every l mem
    exact ⟨fun _ => .inl rfl, fun _ => h.certain consumed, fun _ => placed consumed, h.settled⟩
  next =>
    split
    next =>
      -- some arm may have consumed it: its site is the one that is remembered
      refine ⟨fun consumed => .inr ?_, nofun, nofun, h.settled⟩
      show (if (firstSite _).isZero = true then _ else _) ≠ Span.zero
      split
      next unset =>
        rw [isZero_iff] at unset
        exact (h.noticed consumed).elim placed fun open_ => absurd unset (remembered open_)
      next set => rwa [isZero_iff] at set
    next untouched =>
      have fresh : l.state = .fresh := by
        rw [Bool.not_eq_true, List.any_eq_false] at untouched
        simpa using untouched l mem
      refine ⟨fun consumed => .inr ?_, nofun, nofun, h.settled⟩
      exact (h.noticed consumed).elim (fun c => by simp [fresh] at c) remembered

end Covers

end Lifecycle

/-! ## The cells of a context -/

/-- A capability as a cell. -/
def Binding.cell (b : Binding) : Cell Lifecycle := ⟨b.id, b.name, b.life⟩

namespace Context

variable {c c' p p' e : Context}

/-- The capabilities of the unit as cells with their frames. -/
def faces (c : Context) : List (Nat × Cell Lifecycle) := c.table.map fun b => (b.frame, b.cell)

/-- The capabilities of the open frames as cells. -/
def cells (c : Context) : Cells Lifecycle :=
  c.frames.map fun f => (c.faces.filter (·.1 == f)).map Prod.snd

/-- The numbers of capabilities and of open frames are all different, and the next
ones are new. -/
structure Numbered (c : Context) : Prop where
  counted : c.faces.map (·.2.id) = List.range c.faces.length
  frames : c.frames.Nodup
  opened : ∀ f ∈ c.frames, f < c.nextFrame
  placed : ∀ x ∈ c.faces, x.1 < c.nextFrame

theorem Numbered.faces (n : c.Numbered) : (c.faces.map (·.2.id)).Nodup := by
  rw [n.counted]
  exact List.nodup_range

theorem Numbered.table (n : c.Numbered) : (c.table.map (·.id)).Nodup := by
  simpa [Context.faces, Binding.cell, Function.comp_def] using n.faces

theorem cells_inFrame (c : Context) (f : Nat) :
    (c.faces.filter (·.1 == f)).map Prod.snd = (c.inFrame f).map Binding.cell := by
  simp [faces, inFrame, List.filter_map, Function.comp_def]

theorem mem_flatten_cells {x : Cell Lifecycle} :
    x ∈ c.cells.flatten ↔ ∃ f ∈ c.frames, (f, x) ∈ c.faces := by
  simp [cells, List.mem_flatten]

theorem Numbered.distinct (n : c.Numbered) : c.cells.ids.Nodup := by
  have ids : c.cells.ids = c.frames.flatMap fun f => (c.faces.filter (·.1 == f)).map (·.2.id) := by
    simp [Cells.ids, cells, List.map_flatten, List.flatMap, Function.comp_def]
  rw [ids, List.nodup_flatMap]
  constructor
  · intro f _
    exact n.faces.sublist (List.filter_sublist.map _)
  · refine n.frames.imp fun {f g} differ i left right => ?_
    obtain ⟨x, mx, ix⟩ := List.mem_map.mp left
    obtain ⟨y, my, iy⟩ := List.mem_map.mp right
    simp only [List.mem_filter, beq_iff_eq] at mx my
    have same : x = y := List.inj_on_of_nodup_map n.faces mx.1 my.1 (ix.trans iy.symm)
    exact differ (mx.2.symm.trans ((congrArg Prod.fst same).trans my.2))

/-! ## Requests that keep the cells -/

/-- The contexts differ in histories, threads and branches at most. -/
structure Quiet (c c' : Context) : Prop where
  frames : c'.frames = c.frames
  nextFrame : c'.nextFrame = c.nextFrame
  faces : c'.faces = c.faces

theorem Quiet.cells (q : c.Quiet c') : c'.cells = c.cells := by
  simp only [Context.cells, q.frames, q.faces]

theorem Quiet.numbered (q : c.Quiet c') (n : c.Numbered) : c'.Numbered := by
  refine ⟨?_, ?_, ?_, ?_⟩
  · rw [q.faces]; exact n.counted
  · rw [q.frames]; exact n.frames
  · rw [q.frames, q.nextFrame]; exact n.opened
  · rw [q.faces, q.nextFrame]; exact n.placed

theorem quiet_enterThread (c : Context) (tag : ThreadTag) : c.Quiet (c.enterThread tag) :=
  ⟨rfl, rfl, rfl⟩

theorem quiet_exitThread (h : c.exitThread = .ok c') : c.Quiet c' := by
  simp only [exitThread] at h
  split at h
  · cases h
  · cases h
    exact ⟨rfl, rfl, rfl⟩

theorem quiet_sync (c : Context) (site : Span) : c.Quiet (c.sync site) := by
  refine ⟨rfl, rfl, ?_⟩
  simp only [faces, sync, List.map_map]
  refine List.map_congr_left fun b _ => ?_
  show ((if _ then _ else b).frame, (if _ then _ else b).cell) = _
  split <;> rfl

theorem quiet_enterBranch (c : Context) : c.Quiet c.enterBranch := ⟨rfl, rfl, rfl⟩

theorem quiet_nextArm (h : c.nextArm = .ok c') : c.Quiet c' := by
  simp only [nextArm] at h
  split at h
  · cases h
  · cases h
    exact ⟨rfl, rfl, rfl⟩

theorem quiet_exitBranch {site : Span} (h : c.exitBranch site = .ok c') : c.Quiet c' := by
  simp only [exitBranch] at h
  split at h
  · cases h
  next b rest _ =>
    cases h
    split
    · have synced := quiet_sync { c with branches := rest } site
      exact ⟨synced.frames, synced.nextFrame, synced.faces⟩
    · exact ⟨rfl, rfl, rfl⟩

/-! ## Frames -/

theorem cells_enter (n : c.Numbered) : c.enter.cells = [] :: c.cells := by
  have none : c.faces.filter (·.1 == c.nextFrame) = [] := by
    rw [List.filter_eq_nil_iff]
    intro x mem
    simpa using Nat.ne_of_lt (n.placed x mem)
  show (List.map Prod.snd (c.faces.filter (·.1 == c.nextFrame))) :: c.cells = _
  rw [none]
  rfl

theorem numbered_enter (n : c.Numbered) : c.enter.Numbered := by
  refine ⟨n.counted, List.nodup_cons.mpr ⟨fun mem => ?_, n.frames⟩, fun f mem => ?_,
    fun x mem => ?_⟩
  · exact Nat.lt_irrefl _ (n.opened _ mem)
  · show f < c.nextFrame + 1
    obtain rfl | mem := List.mem_cons.mp mem
    · exact Nat.lt_succ_self _
    · exact Nat.lt_succ_of_lt (n.opened f mem)
  · exact Nat.lt_succ_of_lt (n.placed x mem)

theorem numbered_empty (strict : Bool) : (empty strict).Numbered :=
  ⟨rfl, List.nodup_singleton 0, by simp [empty], by simp [empty, faces]⟩

/-- The races of a history are findings about threads. -/
theorem kind_of_mem_races {name : String} {history : List AccessRecord} {v : Violation}
    (h : v ∈ races name history) : v.kind = .concurrentUse := by
  simp only [races, List.mem_map] at h
  obtain ⟨x, -, rfl⟩ := h
  rfl

theorem kind_of_mem_racesOf {b : Binding} {v : Violation} (h : v ∈ racesOf b) :
    v.kind = .concurrentUse := by
  simp only [racesOf] at h
  split at h
  · cases h
  · exact kind_of_mem_races h

theorem kind_of_mem_validate {v : Violation} (h : v ∈ c.validate) : v.kind = .concurrentUse := by
  obtain ⟨b, -, mem⟩ := List.mem_flatMap.mp h
  exact kind_of_mem_racesOf mem

/-- The innermost frame is closed.  It leaks exactly what is not consumed. -/
structure Leaves (c : Context) (found : List Violation) (c' : Context) : Prop where
  frames : c'.frames = c.frames.tail
  nextFrame : c'.nextFrame = c.nextFrame
  table : c'.table = c.table
  thread : c'.thread = c.thread
  branches : c'.branches = c.branches
  cells : c'.cells = c.cells.tail
  silent : found = [] → ∀ x ∈ c.cells.headD [], x.value.state = .consumed
  races : (∀ x ∈ c.cells.headD [], x.value.state = .consumed) →
    ∀ v ∈ found, ∃ b ∈ c.table, v ∈ racesOf b

theorem Leaves.faces {found : List Violation} (h : c.Leaves found c') : c'.faces = c.faces := by
  rw [Context.faces, h.table, Context.faces]

theorem leaves_exit {site : Span} {found : List Violation} (h : c.exit site = .ok (found, c')) :
    c.Leaves found c' := by
  simp only [exit] at h
  split at h
  · cases h
  next f rest frames =>
    cases h
    have head : c.cells.headD [] = (c.inFrame f).map Binding.cell := by
      simp [Context.cells, frames, cells_inFrame]
    refine ⟨by rw [frames]; rfl, rfl, rfl, rfl, rfl,
      by simp [Context.cells, Context.faces, frames], ?_, ?_⟩
    · intro none x mem
      rw [head] at mem
      obtain ⟨b, mb, rfl⟩ := List.mem_map.mp mem
      have leaks := (List.append_eq_nil_iff.mp none).1
      rw [List.map_eq_nil_iff, List.filter_eq_nil_iff] at leaks
      simpa [Binding.cell] using leaks b mb
    · intro consumed v mem
      rw [head] at consumed
      obtain leak | race := List.mem_append.mp mem
      · obtain ⟨b, mb, -⟩ := List.mem_map.mp leak
        obtain ⟨mb, left⟩ := List.mem_filter.mp mb
        have spent : b.life.state = .consumed := consumed b.cell (List.mem_map_of_mem mb)
        simp [spent] at left
      · split at race
        · cases race
        · obtain ⟨b, mb, mem⟩ := List.mem_flatMap.mp race
          exact ⟨b, List.mem_of_mem_filter mb, mem⟩

theorem Leaves.numbered {found : List Violation} (h : c.Leaves found c') (n : c.Numbered) :
    c'.Numbered := by
  refine ⟨by rw [h.faces]; exact n.counted, ?_, ?_, by rw [h.faces, h.nextFrame]; exact n.placed⟩
  · rw [h.frames]
    exact n.frames.tail
  · rw [h.frames, h.nextFrame]
    exact fun f mem => n.opened f (List.mem_of_mem_tail mem)

/-! ## Definitions and accesses -/

theorem define_ok {name : String} {kind : CapabilityKind} {site : Span}
    (h : c.define name kind site = .ok c') :
    ∃ f rest, c.frames = f :: rest ∧ c'.frames = c.frames ∧ c'.nextFrame = c.nextFrame ∧
      c'.faces = c.faces ++ [(f, ⟨c.faces.length, name, {}⟩)] := by
  simp only [define] at h
  split at h
  · cases h
  next f rest frames =>
    split at h
    · cases h
    · cases h
      refine ⟨f, rest, frames, rfl, rfl, ?_⟩
      simp [faces, Binding.cell]

theorem cells_define (n : c.Numbered) {name : String} {kind : CapabilityKind} {site : Span}
    (h : c.define name kind site = .ok c') :
    c'.cells = c.cells.add ⟨c.faces.length, name, {}⟩ := by
  obtain ⟨f, rest, frames, frames', -, faces⟩ := define_ok h
  have others : ∀ g ∈ rest, (f == g) = false := by
    have distinct := n.frames
    rw [frames, List.nodup_cons] at distinct
    exact fun g mem => beq_eq_false_iff_ne.mpr fun same => distinct.1 (same ▸ mem)
  simp only [cells, frames', frames, faces, List.map_cons, List.filter_append, Cells.add]
  congr 1
  · simp
  · refine List.map_congr_left fun g mem => ?_
    simp [others g mem]

theorem numbered_define (n : c.Numbered) {name : String} {kind : CapabilityKind} {site : Span}
    (h : c.define name kind site = .ok c') : c'.Numbered := by
  obtain ⟨f, rest, frames, frames', next, faces⟩ := define_ok h
  refine ⟨?_, by rw [frames']; exact n.frames, by rw [frames', next]; exact n.opened, ?_⟩
  · simp only [faces, List.map_append, n.counted, List.map_cons, List.map_nil,
      List.length_append, List.length_singleton, List.range_succ]
  · intro x mem
    rw [next]
    rw [faces] at mem
    obtain mem | mem := List.mem_append.mp mem
    · exact n.placed x mem
    · rw [List.mem_singleton.mp mem]
      exact n.opened f (frames ▸ List.mem_cons_self)

/-- The contexts differ in lifecycles, and histories, threads and branches, at most. -/
structure Adjusts (f : Nat → Lifecycle → Lifecycle) (c c' : Context) : Prop where
  frames : c'.frames = c.frames
  nextFrame : c'.nextFrame = c.nextFrame
  faces : c'.faces = c.faces.map fun x => (x.1, { x.2 with value := f x.2.id x.2.value })

theorem Adjusts.cells {f : Nat → Lifecycle → Lifecycle} (h : c.Adjusts f c') :
    c'.cells = c.cells.adjust f := by
  simp only [Context.cells, h.frames, h.faces, Cells.adjust, List.map_map, List.filter_map,
    Function.comp_def]

theorem Adjusts.numbered {f : Nat → Lifecycle → Lifecycle} (h : c.Adjusts f c') (n : c.Numbered) :
    c'.Numbered := by
  refine ⟨?_, by rw [h.frames]; exact n.frames, by rw [h.frames, h.nextFrame]; exact n.opened, ?_⟩
  · simp only [h.faces, List.map_map, List.length_map, Function.comp_def]
    exact n.counted
  · rw [h.faces, h.nextFrame]
    intro x mem
    obtain ⟨y, my, rfl⟩ := List.mem_map.mp mem
    exact n.placed y my

theorem adjusts_mapBindings {f : Binding → Binding} {g : Nat → Lifecycle → Lifecycle}
    (h : ∀ b ∈ c.table, (f b).frame = b.frame ∧
      (f b).cell = { b.cell with value := g b.id b.life }) :
    c.Adjusts g (c.mapBindings f) := by
  refine ⟨rfl, rfl, ?_⟩
  simp only [faces, mapBindings, List.map_map]
  exact List.map_congr_left fun b mem => Prod.ext (h b mem).1 (h b mem).2

theorem find?_map_cell (c : Context) (name : String) :
    (c.find? name).map Binding.cell = c.cells.find? name := by
  have row : c.cells.flatten = (c.frames.flatMap c.inFrame).map Binding.cell := by
    simp only [cells, cells_inFrame, List.flatMap, List.map_flatten, List.map_map]
    rfl
  have first : c.find? name = (c.frames.flatMap c.inFrame).find? (·.name == name) :=
    List.find?_flatMap.symm
  rw [first, Cells.find?, row, List.find?_map]
  rfl

theorem find?_cells {name : String} {b : Binding} (h : c.find? name = some b) :
    c.cells.find? name = some b.cell := by
  rw [← find?_map_cell, h]
  rfl

/-- One capability gets a new lifecycle and one more record. -/
theorem adjusts_note (n : c.Numbered) {b : Binding} (mem : b ∈ c.table) (life : Lifecycle)
    (kind : AccessKind) (site : Span) :
    c.Adjusts (fun i now => if i = b.id then life else now) (c.note b life kind site).1 := by
  have changed := adjusts_mapBindings (c := { c with seq := c.seq + 1 })
    (g := fun i now => if i = b.id then life else now)
    (f := fun old => if old.id = b.id then
      { b with life, history := b.history ++ [c.recordNow kind site] } else old) ?_
  · exact ⟨changed.frames, changed.nextFrame, changed.faces⟩
  · intro old mem'
    by_cases same : old.id = b.id
    · have old_eq : old = b := List.inj_on_of_nodup_map n.table mem' mem same
      simp [old_eq, Binding.cell]
    · simp [same, Binding.cell]

/-- A capability that gets the lifecycle it has. -/
theorem faces_same (n : c.Numbered) {b : Binding} (mem : b ∈ c.table) :
    c.faces = c.faces.map fun x =>
      (x.1, { x.2 with value := if x.2.id = b.id then b.life else x.2.value }) := by
  refine ((List.map_congr_left fun x mx => ?_).trans (List.map_id c.faces)).symm
  by_cases same : x.2.id = b.id
  · have here : x = (b.frame, b.cell) :=
      List.inj_on_of_nodup_map n.faces mx (List.mem_map_of_mem mem) same
    simp [here, Binding.cell]
  · simp [same]

theorem quiet_remark (n : c.Numbered) {name : String} {kind : AccessKind} {site : Span}
    (h : c.remark name kind site = .ok c') : c.Quiet c' := by
  obtain ⟨b, found, rfl⟩ := remark_ok h
  have mem := mem_table_of_find? found
  have noted := adjusts_note n mem b.life kind site
  exact ⟨noted.frames, noted.nextFrame, noted.faces.trans (faces_same n mem).symm⟩

/-- At most a remark was made. -/
def Remarked (c c' : Context) : Prop :=
  c' = c ∨ ∃ name kind site, c.remark name kind site = .ok c'

theorem Remarked.quiet (h : c.Remarked c') (n : c.Numbered) : c.Quiet c' := by
  obtain rfl | ⟨name, kind, site, noted⟩ := h
  · exact ⟨rfl, rfl, rfl⟩
  · exact quiet_remark n noted

theorem kind_of_eager {b : Binding} {v : Violation} (h : c.eager b = some v) :
    v.kind = .concurrentUse := by
  simp only [eager] at h
  split at h
  · simp only [latestRace?] at h
    split at h
    · cases h
    · split at h
      · cases h
      · split at h
        · cases h
        · obtain ⟨x, -, rfl⟩ := Option.map_eq_some_iff.mp h
          rfl
  · cases h

/-- What an access to a capability comes to.  It finds the capability and gives it a
lifecycle.  When the capability is free, the access makes the step that it is there for
and can only complete a race.  When it is not, there is a finding. -/
def Reaches (step : Lifecycle → Lifecycle) (name : String) (c : Context) (v : Option Violation)
    (c' : Context) : Prop :=
  ∃ b life, c.find? name = some b ∧ c.Adjusts (fun i now => if i = b.id then life else now) c' ∧
    (b.life.Free → life = step b.life ∧ ∀ w, v = some w → w.kind = .concurrentUse) ∧
    (v = none → b.life.Free)

theorem Acts.reaches {b : Binding} {step : Lifecycle → Lifecycle} {name : String}
    {kind : AccessKind} {site : Span} {v : Option Violation} (acts : c.Acts b step kind site v c')
    (n : c.Numbered) (found : c.find? name = some b) : c.Reaches step name v c' := by
  have mem := mem_table_of_find? found
  by_cases free : b.life.Free
  · obtain ⟨rfl, answer⟩ := acts.accepted free
    refine ⟨b, _, found, adjusts_note n mem _ kind site, fun _ => ⟨rfl, fun w race => ?_⟩,
      fun _ => free⟩
    rw [answer] at race
    split at race
    · cases race
    · exact kind_of_eager race
  · have silent : v = none → b.life.Free := acts.free
    obtain rfl | ⟨-, rfl⟩ := acts.changed
    · exact ⟨b, b.life, found, ⟨rfl, rfl, faces_same n mem⟩, fun f => absurd f free, silent⟩
    · exact ⟨b, _, found, adjusts_note n mem _ kind site, fun f => absurd f free, silent⟩

theorem Accesses.reaches {op : Context → String → Span → Except Fault (Option Violation × Context)}
    {step : Span → Lifecycle → Lifecycle} {kind : AccessKind} (accesses : Accesses op step kind)
    (n : c.Numbered) {name : String} {site : Span} {v : Option Violation}
    (h : op c name site = .ok (v, c')) : c.Reaches (step site) name v c' := by
  obtain ⟨b, found, acts⟩ := accesses.acts_ok h
  exact acts.reaches n found

/-! ## Covering -/

/-- Each lifecycle of the first context covers the one in its place in the second. -/
def Covers (c p : Context) : Prop := c.cells.Covers Lifecycle.Covers p.cells

namespace Covers

theorem quiet (h : c.Covers p) (q : c.Quiet c') (q' : p.Quiet p') : c'.Covers p' := by
  simp only [Covers, q.cells, q'.cells]
  exact h

theorem enter (h : c.Covers p) (n : c.Numbered) (m : p.Numbered) : c.enter.Covers p.enter := by
  simp only [Covers, cells_enter n, cells_enter m]
  exact Cells.Covers.push h

theorem define (h : c.Covers p) (n : c.Numbered) (m : p.Numbered) {name : String}
    {kind : CapabilityKind} {site : Span} (hc : c.define name kind site = .ok c')
    (hp : p.define name kind site = .ok p') : c'.Covers p' := by
  simp only [Covers, cells_define n hc, cells_define m hp]
  exact Cells.Covers.add h ⟨rfl, .fresh⟩

/-- A frame that leaks nothing in the first context leaks nothing in the second. -/
theorem leave (h : c.Covers p) {found : List Violation} (hc : c.Leaves [] c')
    (hp : p.Leaves found p') : c'.Covers p' ∧ ∀ v ∈ found, v.kind = .concurrentUse := by
  refine ⟨?_, fun v mem => ?_⟩
  · simp only [Covers, hc.cells, hp.cells]
    exact Cells.Covers.tail h
  · obtain ⟨b, -, race⟩ := hp.races (fun x mem => by
      obtain ⟨y, my, pair⟩ := Cells.Covers.exists_mem_head h mem
      exact pair.2.certain (hc.silent rfl y my)) v mem
    exact kind_of_mem_racesOf race

/-- The first context has no finding about an access.  Then the second one has none
either, races apart. -/
theorem reach (h : c.Covers p) (n : c.Numbered) (m : p.Numbered) {step : Lifecycle → Lifecycle}
    {name : String} {v : Option Violation}
    (keeps : ∀ {l q : Lifecycle}, l.Covers q → (step l).Covers (step q))
    (hc : c.Reaches step name none c') (hp : p.Reaches step name v p') :
    c'.Covers p' ∧ ∀ w, v = some w → w.kind = .concurrentUse := by
  obtain ⟨b, life, found, changed, stepped, free⟩ := hc
  obtain ⟨b', life', found', changed', stepped', -⟩ := hp
  have there := find?_cells found
  have there' := find?_cells found'
  have lives : b.life.Covers b'.life := Cells.Covers.found h n.distinct m.distinct there there'
  obtain ⟨new, races⟩ := stepped' (lives.free (free rfl))
  refine ⟨?_, races⟩
  simp only [Covers, changed.cells, changed'.cells]
  refine Cells.Covers.assign h n.distinct m.distinct there there' ?_
  rw [new, (stepped (free rfl)).1]
  exact keeps lives

end Covers

/-! ## Rewinds and joins -/

theorem adjusts_restore (c : Context) (s : Snapshot) :
    c.Adjusts (fun i now => ((s.lookup i).map now.rewind).getD now) (c.restore s) := by
  refine adjusts_mapBindings fun b _ => ?_
  cases s.lookup b.id <;> exact ⟨rfl, rfl⟩

theorem adjusts_merge (c : Context) (first : Snapshot) (rest : List Snapshot) :
    c.Adjusts (fun i now => match first.lookup i with
      | none => now
      | some l => now.rewind (l.merge (rest.filterMap (·.lookup i))))
      (c.merge (first :: rest)) := by
  refine adjusts_mapBindings fun b _ => ?_
  cases first.lookup b.id <;> exact ⟨rfl, rfl⟩

theorem outline_merge (n : c.Numbered) (arms : List Snapshot) :
    (c.merge arms).Numbered ∧ (c.merge arms).frames = c.frames ∧
      (c.merge arms).cells.outline = c.cells.outline := by
  cases arms with
  | nil => exact ⟨n, rfl, rfl⟩
  | cons first rest =>
    have adjusts := adjusts_merge c first rest
    refine ⟨adjusts.numbered n, adjusts.frames, ?_⟩
    rw [adjusts.cells]
    exact Cells.outline_adjust _ _

theorem lookup_snapshot (n : c.Numbered) {x : Cell Lifecycle} (mem : x ∈ c.cells.flatten) :
    c.snapshot.lookup x.id = some x.value := by
  obtain ⟨f, open_, face⟩ := mem_flatten_cells.mp mem
  obtain ⟨b, mb, same⟩ := List.mem_map.mp face
  obtain ⟨rfl, rfl⟩ := Prod.mk.inj same
  have kept : b ∈ c.table.filter fun b => c.frames.contains b.frame :=
    List.mem_filter.mpr ⟨mb, List.contains_iff_mem.mpr open_⟩
  exact Cells.lookup_of_mem (n.table.sublist (List.filter_sublist.map _)) kept

/-- A context with the same outline knows the same numbers. -/
theorem exists_lookup_snapshot (n : c.Numbered) (same : c.cells.outline = e.cells.outline)
    {x : Cell Lifecycle} (mem : x ∈ e.cells.flatten) : ∃ l, c.snapshot.lookup x.id = some l := by
  obtain ⟨y, my, id, -⟩ := Cells.exists_of_outline same mem
  exact ⟨y.value, id ▸ lookup_snapshot n my⟩

/-- A rewound context covers what the context covered to which it is rewound. -/
theorem Covers.restore (h : e.Covers p) (n : e.Numbered)
    (same : c.cells.outline = e.cells.outline) : (c.restore e.snapshot).Covers p := by
  simp only [Covers, (adjusts_restore c e.snapshot).cells]
  refine Cells.Covers.mend h same fun x mem now w covers => ?_
  rw [lookup_snapshot n mem]
  exact covers.rewind now

/-- A joined context covers what one of its arms covers. -/
theorem Covers.merge (h : e.Covers p) {arms : List Snapshot}
    (alike : ∀ s ∈ arms, ∃ c' : Context, s = c'.snapshot ∧ c'.Numbered ∧
      c'.cells.outline = c.cells.outline)
    (n : e.Numbered) (same : e.cells.outline = c.cells.outline) (mem : e.snapshot ∈ arms) :
    (c.merge arms).Covers p := by
  cases arms with
  | nil => cases mem
  | cons first rest =>
    simp only [Covers, (adjusts_merge c first rest).cells]
    refine Cells.Covers.mend h same.symm fun x inside now w covers => ?_
    obtain ⟨c', rfl, n', same'⟩ := alike first List.mem_cons_self
    obtain ⟨l, look⟩ := exists_lookup_snapshot n' (same'.trans same.symm) inside
    rw [look]
    refine (covers.merge ?_).rewind now
    have own := lookup_snapshot n inside
    obtain here | there := List.mem_cons.mp mem
    · rw [here, look] at own
      exact List.mem_cons.mpr (.inl (Option.some.inj own).symm)
    · exact List.mem_cons_of_mem _ (List.mem_filterMap.mpr ⟨e.snapshot, there, own⟩)

end Context

end ResourceSafety.Capability
