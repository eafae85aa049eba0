import ResourceSafety.Proofs.Checker.Covering
import ResourceSafety.Proofs.Checker.Shedding
import ResourceSafety.Proofs.Scope.Pile

/-!
# Every arm starts from the entry state

Whatever is requested on the arms of a branch, scopes and branches nested inside them
included: when the next arm begins, and the scopes and branches are open that were open at
the beginning of the branch, every name means what it meant there, in the same state
(`arm_starts_from_entry`).  Only the names that were declared on the arms in the innermost
of these scopes are left.  They stay declared (`name_declared_on_arm_stays`), since rewinding is
about values and not about names.

A request does one thing to the pile of the scopes and one to the pile of the branches
(`Lockstep.steps`), and so both come from those of any earlier time (`Lockstep.since`).
-/

namespace ResourceSafety

open Logic (Action Solver)

/-! ## Strata -/

namespace Journal

/-- The scopes with the bodies they are in, innermost scope first. -/
def strata (j : Journal) : List (Nat × List Made) := j.flatMap fun p => p.scopes.map (p.body, ·)

theorem length_strata (j : Journal) : j.strata.length = j.scopes.length := by
  simp [strata, scopes, List.length_flatMap]

theorem strata_cons (p : Page) (rest : Journal) :
    strata (p :: rest) = p.scopes.map (p.body, ·) ++ strata rest := rfl

theorem strata_tail (j : Journal) : strata j.tail <:+ strata j := by
  cases j with
  | nil => exact List.suffix_rfl
  | cons p rest => exact List.suffix_append _ _

theorem strata_onPage_tail (j : Journal) : strata (j.onPage List.tail) <:+ strata j := by
  cases j with
  | nil => exact List.suffix_rfl
  | cons p rest =>
      rw [onPage, strata_cons, strata_cons]
      cases scopes : p.scopes with
      | nil => exact List.suffix_rfl
      | cons s outer => exact List.suffix_cons _ _

/-- A name means its declaration in the innermost stratum that has it. -/
theorem findSome?_strata (j : Journal) (name : String) :
    (j.strata.findSome? fun s => (s.2.find? (·.declared.name == name)).map (s.1, ·)) =
      (j.find? name).map fun found => (found.1.body, found.2) := by
  induction j with
  | nil => rfl
  | cons p rest ih =>
      have here : ((p.scopes.map (p.body, ·)).findSome? fun s =>
          (s.2.find? (·.declared.name == name)).map (s.1, ·)) =
          (p.scopes.flatten.find? (·.declared.name == name)).map (p.body, ·) := by
        rw [List.findSome?_map, List.find?_flatten, List.map_findSome?]
        rfl
      rw [strata_cons, List.findSome?_append, here, ih]
      show _ = Option.map _ (List.findSome? _ (p :: rest))
      rw [List.findSome?_cons]
      cases p.scopes.flatten.find? (·.declared.name == name) <;> rfl

end Journal

namespace CompilationUnit

variable {σ : Type} {u v e : CompilationUnit σ} {j k : Journal}

/-- The open scopes with what was declared in them. -/
def scopePile (u : CompilationUnit σ) (j : Journal) : Pile (Nat × List Made) :=
  ⟨u.capabilities.frames.zip j.strata, u.capabilities.nextFrame⟩

/-- The open branches with the states that their arms start from. -/
def branchPile (u : CompilationUnit σ) : Pile Moment :=
  ⟨(u.capabilities.branches.map (·.here.branch)).zip (u.forks.map (·.entry)),
    u.capabilities.branchCount + 1⟩

/-- The second scope is the first with more declarations. -/
def Grows (s t : Nat × List Made) : Prop := s.1 = t.1 ∧ s.2 <+: t.2

theorem Grows.refl (s : Nat × List Made) : Grows s s := ⟨rfl, List.prefix_rfl⟩

theorem Grows.trans {s t r : Nat × List Made} (h : Grows s t) (h' : Grows t r) : Grows s r :=
  ⟨h.1.trans h'.1, h.2.trans h'.2⟩

/-- What a request does to the piles of a unit. -/
structure Steps (c d : CompilationUnit σ × Journal) : Prop where
  scopes : Pile.Step Grows (c.1.scopePile c.2) (d.1.scopePile d.2)
  branches : Pile.Step Eq c.1.branchPile d.1.branchPile

theorem Lockstep.length_frames (h : u.Lockstep j) :
    u.capabilities.frames.length = j.strata.length := by
  have length := congrArg List.length h.held
  simpa [outline, Cells.outline, Capability.Context.cells, Journal.length_strata] using length

theorem Sheds.branchPile (h : u.Sheds v) : v.branchPile = u.branchPile := by
  simp only [CompilationUnit.branchPile, h.capabilities.branches, h.capabilities.branchCount,
    h.forks]

theorem Lockstep.steps_of_sheds (h : u.Lockstep j) (h' : v.Lockstep k) (sheds : u.Sheds v)
    (lower : k.strata <:+ j.strata) : Steps (u, j) (v, k) where
  scopes := by
    simp only [scopePile, sheds.capabilities.nextFrame]
    exact .pop (p := u.scopePile j)
      (zip_suffix sheds.capabilities.frames lower h.length_frames h'.length_frames)
  branches := sheds.branchPile ▸ .refl _

theorem outcome_none {α : Type} {a : Action (CompilationUnit σ) α}
    (h : u.outcome a = (none, v)) : ∃ x, a.perform u = (.ok x, v) := by
  rcases run : a.perform u with ⟨fault | x, t⟩
  · simp [outcome, run] at h
  · simp only [outcome, run, Prod.mk.injEq, true_and] at h
    exact ⟨x, h ▸ rfl⟩

variable [Solver σ]

/-- A request that fails changes nothing, unless it talks to the solver. -/
theorem Lockstep.steps_of_served (h : u.Lockstep j) {r : Request} (bare : r.isSolving = false)
    (step : ∀ v, u.serve r = (none, v) → v.Lockstep (u.noted j r) → Steps (u, j) (v, u.noted j r)) :
    Steps (u, j) (CompilationUnit.follow (u, j) r) := by
  obtain ⟨v, run, lock⟩ | ⟨fault, v, run, lock, same⟩ := h.serve r
  · simp only [CompilationUnit.follow, run]
    exact step v run lock
  · cases same bare
    simp only [CompilationUnit.follow, run]
    exact ⟨.refl _, .refl _⟩

theorem Lockstep.steps_shedding (h : u.Lockstep j) {r : Request} (sheds : u.Sheds (u.serve r).2)
    (lower : (u.noted j r).strata <:+ j.strata) :
    Steps (u, j) (CompilationUnit.follow (u, j) r) := by
  obtain ⟨v, run, lock⟩ | ⟨fault, v, run, lock, -⟩ := h.serve r
  · simp only [CompilationUnit.follow, run] at sheds ⊢
    exact h.steps_of_sheds lock sheds lower
  · simp only [CompilationUnit.follow, run] at sheds ⊢
    exact h.steps_of_sheds lock sheds List.suffix_rfl

/-- An action that is answered sheds scopes. -/
theorem Lockstep.steps_outcome (h : u.Lockstep j) {r : Request} {α : Type}
    {a : Action (CompilationUnit σ) α} (bare : r.isSolving = false)
    (serve : u.serve r = u.outcome a) (noted : u.noted j r = j)
    (sheds : ∀ x v, a.perform u = (.ok x, v) → u.Sheds v) :
    Steps (u, j) (CompilationUnit.follow (u, j) r) := by
  refine h.steps_of_served bare fun v run lock => ?_
  rw [serve] at run
  obtain ⟨x, run⟩ := outcome_none run
  rw [noted] at lock ⊢
  exact h.steps_of_sheds lock (sheds x v run) List.suffix_rfl

theorem Lockstep.steps_onDischarger (h : u.Lockstep j) {r : Request} {α : Type}
    {a : Action (Discharger σ) α} (serve : u.serve r = u.outcome (do requireLive; onDischarger a))
    (noted : u.noted j r = j) : Steps (u, j) (CompilationUnit.follow (u, j) r) := by
  refine h.steps_shedding ?_ (by simp only [noted, List.suffix_refl])
  obtain ⟨result, d, -, whole⟩ := h.perform_onDischarger a
  rw [serve, outcome, whole]
  cases result <;> exact ⟨.refl _, rfl⟩

theorem Lockstep.steps_declare (h : u.Lockstep j) (name : String) (type : Option Ty)
    (site : Span) :
    Steps (u, j) (CompilationUnit.follow (u, j) (.declare name type site)) := by
  refine h.steps_of_served rfl fun v run lock => ?_
  obtain ⟨d, run⟩ := outcome_none run
  have sheds := sheds_declare run
  refine ⟨?_, sheds.branchPile ▸ .refl _⟩
  obtain ⟨f, frames, open_⟩ := h.exists_frame
  obtain ⟨p, rest, rfl, describes, -⟩ := h.exists_page
  obtain ⟨s, outer, scopes, -⟩ := describes.inner
  have written : Journal.strata (u.noted (p :: rest) (.declare name type site)) =
      (p.body, s ++ [u.made name type site]) ::
        (outer.map (p.body, ·) ++ Journal.strata rest) := by
    simp [CompilationUnit.noted, Journal.onPage, Journal.strata, Journal.write, scopes]
  have before : Journal.strata (p :: rest) =
      (p.body, s) :: (outer.map (p.body, ·) ++ Journal.strata rest) := by
    simp [Journal.strata, scopes]
  have same : v.capabilities.frames = u.capabilities.frames := by
    refine sheds.capabilities.frames.eq_of_length ?_
    rw [lock.length_frames, h.length_frames, written, before]
    rfl
  simp only [scopePile, same, open_, sheds.capabilities.nextFrame, written, before,
    List.zip_cons_cons]
  exact .change ⟨rfl, List.prefix_append _ _⟩

omit [Solver σ] in
theorem steps_enter {bodies : List Body} {id : Nat}
    (turns : { u with nextBody := id }.Turns v bodies u.capabilities.enter [])
    {body : Nat} (strata : k.strata = (body, []) :: j.strata) : Steps (u, j) (v, k) where
  scopes := by
    simp only [scopePile, turns.capabilities, Capability.Context.enter, strata, List.zip_cons_cons]
    exact .push (u.scopePile j) _
  branches := by
    simp only [branchPile, turns.capabilities, turns.forks]
    exact .refl _

omit [Solver σ] in
theorem steps_endBranch {site : Span} {x : Unit} (h : (endBranch site).perform u = (.ok x, v)) :
    Steps (u, j) (v, j) := by
  obtain ⟨f, rest, c, forks, left, turns⟩ := endBranch_ok h
  have merged := Capability.Context.sheds_merge c
    ((meeting (Fork.finishArm f u)).map Moment.capabilities)
  obtain ⟨branches, count, nextFrame, frames⟩ := Capability.Context.branches_exitBranch left
  have same : (c.merge ((meeting (Fork.finishArm f u)).map Moment.capabilities)).frames =
      c.frames := by
    cases (meeting (Fork.finishArm f u)).map Moment.capabilities <;> rfl
  constructor
  · simp only [scopePile, turns.capabilities, same, merged.nextFrame, frames, nextFrame]
    exact .refl _
  · simp only [branchPile, turns.capabilities, turns.forks, merged.branches, merged.branchCount,
      branches, count, forks, List.map_cons]
    refine .pop ?_
    cases u.capabilities.branches with
    | nil => exact List.suffix_rfl
    | cons b outer => exact List.suffix_cons _ _

/-- What any request does to the piles. -/
theorem Lockstep.steps (h : u.Lockstep j) (r : Request) :
    Steps (u, j) (CompilationUnit.follow (u, j) r) := by
  cases r with
  | declare name type site => exact h.steps_declare name type site
  | access a name site => exact h.steps_outcome rfl rfl rfl fun _ _ => sheds_access
  | release name site => exact h.steps_outcome rfl rfl rfl fun _ _ => sheds_release
  | use name site =>
      exact h.steps_outcome rfl rfl rfl fun _ _ =>
        sheds_capabilityAccess Capability.Context.accesses_use
  | consume name site =>
      exact h.steps_outcome rfl rfl rfl fun _ _ =>
        sheds_capabilityAccess Capability.Context.accesses_consume
  | share name site =>
      exact h.steps_outcome rfl rfl rfl fun _ _ =>
        sheds_capabilityAccess Capability.Context.accesses_share
  | enterThread tag => exact h.steps_outcome rfl rfl rfl fun _ _ => sheds_enterThread
  | exitThread => exact h.steps_outcome rfl rfl rfl fun _ _ => sheds_exitThread
  | sync site => exact h.steps_outcome rfl rfl rfl fun _ _ => sheds_sync
  | require o => exact h.steps_onDischarger rfl rfl
  | freshHandle cancelled text => exact h.steps_onDischarger rfl rfl
  | assertShape cancelled symbol dims => exact h.steps_onDischarger rfl rfl
  | assume cancelled fact => exact h.steps_onDischarger rfl rfl
  | enterBlock site =>
      refine h.steps_of_served rfl fun v run _ => ?_
      obtain ⟨x, run⟩ := outcome_none run
      obtain ⟨p, rest, rfl, -, -⟩ := h.exists_page
      exact steps_enter (enterBlock_ok run) rfl
  | exitBlock site => exact h.steps_shedding (sheds_exitBlock site u) (Journal.strata_onPage_tail j)
  | beginFunction name site =>
      refine h.steps_of_served rfl fun v run _ => ?_
      obtain ⟨x, run⟩ := outcome_none run
      exact steps_enter (beginFunction_ok run) rfl
  | endFunction gaveUp site =>
      exact h.steps_shedding (sheds_endFunction gaveUp site u) (Journal.strata_tail j)
  | beginBranch =>
      refine h.steps_of_served rfl fun v run _ => ?_
      obtain ⟨x, run⟩ := outcome_none run
      rw [beginBranch_ok run]
      exact ⟨.refl _, .push u.branchPile _⟩
  | nextArm => exact h.steps_outcome rfl rfl rfl fun _ _ => sheds_nextArm
  | endBranch site =>
      refine h.steps_of_served rfl fun v run _ => ?_
      obtain ⟨x, run⟩ := outcome_none run
      exact steps_endBranch run

/-! ## Runs -/

/-- The piles of a unit and its journal came from those of an earlier one. -/
structure Since (c d : CompilationUnit σ × Journal) : Prop where
  lockstep : d.1.Lockstep d.2
  scopes : Pile.Since Grows (c.1.scopePile c.2) (d.1.scopePile d.2)
  branches : Pile.Since Eq c.1.branchPile d.1.branchPile

theorem Since.follow {c d : CompilationUnit σ × Journal} (h : Since c d) (r : Request) :
    Since c (CompilationUnit.follow d r) where
  lockstep := h.lockstep.follow r
  scopes := h.scopes.step Grows.refl Grows.trans (h.lockstep.steps r).scopes
  branches := h.branches.step Eq.refl Eq.trans (h.lockstep.steps r).branches

/-- Any requests later, the piles came from those of the beginning. -/
theorem Lockstep.since (h : u.Lockstep j) (rs : List Request) :
    Since (u, j) (rs.foldl CompilationUnit.follow (u, j)) := by
  have run : ∀ {d : CompilationUnit σ × Journal}, Since (u, j) d →
      Since (u, j) (rs.foldl CompilationUnit.follow d) := by
    intro d since
    induction rs generalizing d with
    | nil => exact since
    | cons r rs ih => exact ih (since.follow r)
  exact run ⟨h, .refl Grows.refl _, .refl Eq.refl _⟩

/-! ## Standings -/

/-- What is known about the value that a name means. -/
structure Standing where
  /-- What the name is declared as. -/
  declared : Declared
  /-- Whether the value is still there and who borrows it. -/
  record : Ownership.Record
  /-- How far its capability has come. -/
  life : Option Capability.Lifecycle

omit [Solver σ]

/-- What is known about the value that a name means now, except whether its capability is
shared. -/
def standing? (u : CompilationUnit σ) (name : String) : Option Standing := do
  let (b, d) ← u.locate? name
  let x ← b.tracker.find? name
  let y := if d.mode.hasCapability then u.capabilities.find? name else none
  return ⟨d, x.record, y.map fun y => { y.life with shared := false }⟩

variable {w : CompilationUnit σ} {name : String} {p p' : Page} {m : Made} {b b' : Body}
  {x x' : Ownership.Binding} {y y' : Option Capability.Binding}

theorem Leads.standing (h : u.Leads name p m b x y) :
    u.standing? name = some ⟨m.declared, x.record, y.map fun y => { y.life with shared := false }⟩ := by
  have held : (if m.declared.mode.hasCapability then u.capabilities.find? name else none) = y := by
    rw [← h.marked]
    cases y with
    | none => rfl
    | some y => exact h.held y rfl
  simp [standing?, h.located, h.bound, held]

theorem Lockstep.standing?_eq_none (h : u.Lockstep j) (none : j.find? name = none) :
    u.standing? name = Option.none := by
  simp [standing?, h.find?_eq_none.mp none]

/-- The unit `w` is `v` with its values taken back to `e`. -/
structure Rewinds (e v w : CompilationUnit σ) : Prop where
  bodies : w.bodies = v.bodies.map (rewindBody e.now)
  capabilities : w.capabilities.cells = v.capabilities.cells.adjust fun i now =>
    ((e.capabilities.snapshot.lookup i).map now.rewind).getD now

theorem rewinds_nextArm {f : Fork} {rest : List Fork} (forks : v.forks = f :: rest)
    (entry : f.entry = e.now) {x : Unit} (h : nextArm.perform v = (.ok x, w)) : Rewinds e v w := by
  obtain ⟨f', rest', c, forks', next, turns⟩ := nextArm_ok h
  rw [forks, List.cons.injEq] at forks'
  obtain ⟨rfl, rfl⟩ := forks'
  rw [entry] at next turns
  refine ⟨turns.bodies, ?_⟩
  rw [turns.capabilities, (Capability.Context.quiet_nextArm next).cells,
    (Capability.Context.adjusts_restore _ _).cells]
  rfl

theorem Rewinds.record (h : Rewinds e v w) (n : e.Counted) (before : e.Leads name p m b x y)
    (after : w.Leads name p' m b' x' y') (page : p'.body = p.body) : x'.record = x.record := by
  have mem := after.mem
  rw [h.bodies] at mem
  obtain ⟨b₀, mem, rfl⟩ := List.mem_map.mp mem
  have id : b₀.id = b.id := by
    have same := congrArg BodyOutline.id (outline_rewindBody e.now b₀)
    exact same.symm.trans (after.body.trans (page.trans before.body.symm))
  have tracker : (rewindBody e.now b₀).tracker = b₀.tracker.restore b.tracker.snapshot := by
    rw [rewindBody, id, lookup_now n before.mem]
  have here := List.mem_of_find?_eq_some (Ownership.Tracker.find?_cells after.bound)
  rw [tracker, Ownership.Tracker.cells_restore] at here
  obtain ⟨c, -, same⟩ := Cells.exists_of_mem_adjust here
  have number : c.id = x.id :=
    (congrArg Cell.id same).symm.trans (after.binding.trans before.binding.symm)
  have there := List.mem_of_find?_eq_some (Ownership.Tracker.find?_cells before.bound)
  have look := Ownership.Tracker.lookup_snapshot (n.trackers b before.mem) there
  rw [number, show x.id = x.cell.id from rfl, look] at same
  exact congrArg Cell.value same

theorem Rewinds.life (h : Rewinds e v w) (n : e.Counted) (before : e.Leads name p m b x y)
    (after : w.Leads name p' m b' x' y') :
    (y'.map fun y => ({ y.life with shared := false } : Capability.Lifecycle)) =
      y.map fun y => { y.life with shared := false } := by
  cases y with
  | none =>
      have none : y' = Option.none := by
        simpa using after.capability.trans before.capability.symm
      rw [none]
  | some y =>
      obtain ⟨y', rfl, number⟩ := Option.map_eq_some_iff.mp
        (after.capability.trans before.capability.symm)
      have here := List.mem_of_find?_eq_some
        (Capability.Context.find?_cells (after.held y' rfl))
      rw [h.capabilities] at here
      obtain ⟨c, -, same⟩ := Cells.exists_of_mem_adjust here
      have number : c.id = y.id := (congrArg Cell.id same).symm.trans number
      have there := List.mem_of_find?_eq_some
        (Capability.Context.find?_cells (before.held y rfl))
      have look := Capability.Context.lookup_snapshot n.capabilities there
      rw [number, show y.id = y.cell.id from rfl, look] at same
      have life : y'.life = c.value.rewind y.life := congrArg Cell.value same
      simp [life, Capability.Lifecycle.rewind]

/-- A name that means the same declaration has the same standing. -/
theorem Rewinds.standing (h : Rewinds e v w) (n : e.Counted) (before : e.Leads name p m b x y)
    (after : w.Leads name p' m b' x' y') (page : p'.body = p.body) :
    w.standing? name = e.standing? name := by
  rw [before.standing, after.standing, h.record n before after page, h.life n before after]

/-! ## The next arm -/

/-- The open scopes and the open branches, by number. -/
def nesting (u : CompilationUnit σ) : List Nat × List Nat :=
  (u.capabilities.frames, u.capabilities.branches.map (·.here.branch))

theorem Lockstep.map_scopePile (h : u.Lockstep j) :
    (u.scopePile j).things.map Prod.fst = u.capabilities.frames ∧
      (u.scopePile j).things.map Prod.snd = j.strata :=
  ⟨List.map_fst_zip (Nat.le_of_eq h.length_frames),
    List.map_snd_zip (Nat.le_of_eq h.length_frames.symm)⟩

theorem Lockstep.map_branchPile (h : u.Lockstep j) :
    u.branchPile.things.map Prod.fst = u.capabilities.branches.map (·.here.branch) ∧
      u.branchPile.things.map Prod.snd = u.forks.map (·.entry) := by
  have length : (u.capabilities.branches.map (·.here.branch)).length =
      (u.forks.map (·.entry)).length := by simpa using h.branches
  exact ⟨List.map_fst_zip (Nat.le_of_eq length), List.map_snd_zip (Nat.le_of_eq length.symm)⟩

theorem Lockstep.exists_strata (h : u.Lockstep j) : ∃ body s rest,
    j.strata = (body, s) :: rest ∧ u.current.innerNames = s.map Made.declared := by
  obtain ⟨p, rest, rfl, describes, -⟩ := h.exists_page
  obtain ⟨s, outer, scopes, names, -⟩ := describes.inner
  exact ⟨p.body, s, outer.map (p.body, ·) ++ Journal.strata rest, by
    simp [Journal.strata, scopes], names⟩

theorem Lockstep.find?_eq (h : u.Lockstep j) (name : String) :
    u.find? name = (j.find? name).map (·.2.declared) := by
  cases found : j.find? name with
  | none =>
      rw [CompilationUnit.find?, h.find?_eq_none.mp found]
      rfl
  | some pm =>
      obtain ⟨b, x, y, leads⟩ := h.leads (p := pm.1) (m := pm.2) found
      rw [CompilationUnit.find?, leads.located]
      rfl

/-- Scopes and branches that were open at the beginning of a branch and are open again: the
entry state of the branch is that of the beginning, and declarations came to the innermost scope
alone. -/
theorem Since.same_nesting [Solver σ] (start : e.Lockstep j) (h : Since (e, j) (v, k))
    (level : v.nesting = e.nesting) {i : Nat} {rest : List (Nat × Moment)}
    (top : e.branchPile.things = (i, e.now) :: rest) (older : i < e.branchPile.next) :
    (∃ f outer, v.forks = f :: outer ∧ f.entry = e.now) ∧
      ∃ body s new outer, j.strata = (body, s) :: outer ∧ k.strata = (body, s ++ new) :: outer ∧
        e.current.innerNames = s.map Made.declared ∧
        v.current.innerNames = (s ++ new).map Made.declared := by
  obtain ⟨lock, scopes, branches⟩ := h
  constructor
  · have same : v.branchPile.things.map Prod.fst = e.branchPile.things.map Prod.fst := by
      rw [lock.map_branchPile.1, start.map_branchPile.1]
      exact congrArg Prod.snd level
    obtain ⟨_, things, rfl⟩ := branches.eq_below top older same
    have entries := lock.map_branchPile.2
    rw [things] at entries
    obtain ⟨f, outer, forks, entry, -⟩ := List.map_eq_cons_iff.mp entries.symm
    exact ⟨f, outer, forks, entry⟩
  · have same : (v.scopePile k).things.map Prod.fst = (e.scopePile j).things.map Prod.fst := by
      rw [lock.map_scopePile.1, start.map_scopePile.1]
      exact congrArg Prod.fst level
    obtain ⟨body, s, outer, strata, names⟩ := start.exists_strata
    obtain ⟨f, frames, open_⟩ := start.exists_frame
    have topmost : (e.scopePile j).things = (f, (body, s)) :: frames.zip outer := by
      rw [scopePile, open_, strata, List.zip_cons_cons]
    have placed : f < e.capabilities.nextFrame :=
      start.capabilities.opened f (open_ ▸ List.mem_cons_self)
    obtain ⟨⟨_, _⟩, things, rfl, new, rfl⟩ := scopes.eq_below topmost placed same
    have before := start.map_scopePile.2
    rw [topmost, strata, List.map_cons, List.cons.injEq] at before
    have after := lock.map_scopePile.2
    rw [things, List.map_cons, before.2] at after
    obtain ⟨_, _, _, strata', names'⟩ := lock.exists_strata
    rw [← after, List.cons.injEq, Prod.mk.injEq] at strata'
    obtain ⟨⟨rfl, rfl⟩, rfl⟩ := strata'
    exact ⟨body, s, new, outer, strata, after.symm, names, names'⟩

/-- A name that was not declared anew leads to the same declaration. -/
theorem find?_of_strata {body : Nat} {s new : List Made} {outer : List (Nat × List Made)}
    (before : j.strata = (body, s) :: outer) (after : k.strata = (body, s ++ new) :: outer)
    {name : String} (old : ∀ d ∈ new.map Made.declared, d.name ≠ name) :
    ((k.find? name).map fun found => (found.1.body, found.2)) =
      (j.find? name).map fun found => (found.1.body, found.2) := by
  have missing : new.find? (·.declared.name == name) = none := by
    rw [List.find?_eq_none]
    intro m mem same
    exact old m.declared (List.mem_map_of_mem mem) (beq_iff_eq.mp same)
  rw [← Journal.findSome?_strata, ← Journal.findSome?_strata, before, after, List.findSome?_cons,
    List.findSome?_cons, List.find?_append, missing, Option.or_none]

/-- After any requests to a new unit a branch is opened, and after any further requests, refused
ones and whole arms included, the same scopes and branches are open.  Then the next arm can
begin.  Every name means there what it meant at the beginning of the branch, and its value and
its capability are in the state they had there.  The only other names are those declared
meanwhile in the innermost scope: what names mean is not taken back. -/
theorem arm_starts_from_entry [Solver σ] {name : String} {registry : Registry}
    {config : CheckerConfig} {run : String} {opening : Bool → Except Fault σ}
    {before during : List Request}
    (whole : (fresh name registry config run opening).followAll before = (u, j))
    (opened : beginBranch.perform u = (.ok (), e))
    (walked : during.foldl CompilationUnit.follow (e, j) = (v, k))
    (level : v.nesting = e.nesting) :
    ∃ w new, nextArm.perform v = (.ok (), w) ∧
      v.current.innerNames = e.current.innerNames ++ new ∧
      (∀ name, w.find? name = v.find? name) ∧
      ∀ name, (∀ d ∈ new, d.name ≠ name) →
        w.find? name = e.find? name ∧ w.standing? name = e.standing? name := by
  obtain ⟨e', run, start⟩ := (lockstep_of_followAll whole).beginBranch
  cases run.symm.trans opened
  have since := start.since during
  rw [walked] at since
  have top : e.branchPile.things =
      (u.capabilities.branchCount + 1, e.now) :: u.branchPile.things := by
    rw [beginBranch_ok opened]
    rfl
  have older : u.capabilities.branchCount + 1 < e.branchPile.next := by
    rw [beginBranch_ok opened]
    exact Nat.lt_succ_self _
  obtain ⟨⟨f, rest, forks, entry⟩, body, s, new, outer, strata, strata', names, names'⟩ :=
    since.same_nesting start level top older
  obtain ⟨w, next, lock⟩ := since.lockstep.nextArm forks
  have rewinds := rewinds_nextArm forks entry next
  refine ⟨w, new.map Made.declared, next, ?_, fun name => ?_, fun name old => ?_⟩
  · rw [names', names, List.map_append]
  · rw [lock.find?_eq, since.lockstep.find?_eq]
  · have same := find?_of_strata strata strata' old
    cases found : j.find? name with
    | none =>
        have missing : k.find? name = none := by simpa [found] using same
        rw [lock.find?_eq, start.find?_eq, lock.standing?_eq_none missing,
          start.standing?_eq_none found, missing, found]
        exact ⟨rfl, rfl⟩
    | some pm =>
        rw [found, Option.map_some, Option.map_eq_some_iff] at same
        obtain ⟨⟨p', m⟩, found', alike⟩ := same
        obtain ⟨page, rfl⟩ := Prod.mk.inj alike
        obtain ⟨b, x, y, leads⟩ := start.leads (p := pm.1) (m := pm.2) found
        obtain ⟨b', x', y', leads'⟩ := lock.leads found'
        refine ⟨?_, rewinds.standing start.toCounted leads leads' page⟩
        rw [lock.find?_eq, start.find?_eq, found', found]
        rfl

/-- A tensor is moved and consumed on the first arm, inside a block where its name has another
meaning.  On the second arm a branch is opened and closed, and another name is declared. -/
def movingArms : List Request :=
  [.access .move "s" (.point "u" 3 1), .consume "s" (.point "u" 4 1), .enterBlock (.point "u" 5 1),
   .declare "s" none (.point "u" 6 1), .exitBlock (.point "u" 7 1), .nextArm, .beginBranch,
   .access (.borrow true) "s" (.point "u" 8 1), .nextArm, .endBranch (.point "u" 9 1),
   .declare "t" none (.point "u" 10 1)]

theorem arm_starts_from_entry_movingArms :
    ∃ (u e v w : CompilationUnit Logic.BitBlaster) (j k : Journal),
      (fresh "u" .empty {} "" bare).followAll
        [.declare "s" (some .tensor) (.point "u" 1 1)] = (u, j) ∧
      beginBranch.perform u = (.ok (), e) ∧
      movingArms.foldl CompilationUnit.follow (e, j) = (v, k) ∧ v.nesting = e.nesting ∧
      (v.standing? "s").map (·.record.state) = some .borrowedMutably ∧
      nextArm.perform v = (.ok (), w) ∧ w.find? "s" = e.find? "s" ∧
      w.standing? "s" = e.standing? "s" := by
  let start := (fresh "u" .empty {} "" bare).followAll
    [.declare "s" (some .tensor) (.point "u" 1 1)]
  let e := (beginBranch.perform start.1).2
  let c := movingArms.foldl CompilationUnit.follow (e, start.2)
  have opened : beginBranch.perform start.1 = (.ok (), e) := rfl
  have walked : movingArms.foldl CompilationUnit.follow (e, start.2) = (c.1, c.2) :=
    (Prod.eta _).symm
  have level : c.1.nesting = e.nesting := by decide +kernel
  have moved : (c.1.standing? "s").map (·.record.state) = some .borrowedMutably := by
    decide +kernel
  obtain ⟨w, new, next, names, -, same⟩ := arm_starts_from_entry rfl opened walked level
  have known : c.1.current.innerNames.map (·.name) = ["s", "t"] ∧
      e.current.innerNames.map (·.name) = ["s"] := by decide +kernel
  rw [names, List.map_append, known.2, List.cons_append, List.nil_append, List.cons.injEq] at known
  have other : ∀ d ∈ new, d.name ≠ "s" := fun d mem => by
    have added : d.name ∈ ["t"] := known.1.2 ▸ List.mem_map_of_mem mem
    rw [List.mem_singleton.mp added]
    decide
  exact ⟨_, e, _, w, _, _, rfl, opened, walked, level, moved, next, same "s" other⟩

/-- A name that is declared on an arm is known on the next arm. -/
theorem name_declared_on_arm_stays : ∃ (e v w : CompilationUnit Logic.BitBlaster) (k : Journal),
    beginBranch.perform (fresh "u" .empty {} "" bare) = (.ok (), e) ∧
      [Request.declare "x" none (.point "u" 1 1)].foldl CompilationUnit.follow
        (e, Journal.blank) = (v, k) ∧
      v.nesting = e.nesting ∧ nextArm.perform v = (.ok (), w) ∧
      e.find? "x" = none ∧ w.find? "x" ≠ none :=
  ⟨_, _, _, _, rfl, rfl, rfl, rfl, rfl, nofun⟩

end CompilationUnit

end ResourceSafety
