import ResourceSafety.Proofs.Checker.Lockstep

/-!
# Requests that shed scopes

Most requests open nothing: they close scopes, or leave them alone, and the open branches
with their entry states stay.  So do the closings of blocks and of functions, whether or not
they fail.
-/

namespace ResourceSafety

open Logic (Action Solver)

/-! ## Contexts that shed frames -/

namespace Capability.Context

variable {c c' c'' : Context} {name : String} {site : Span}

/-- Frames may have been closed.  No frame was opened, and no branch was opened or closed. -/
structure Sheds (c c' : Context) : Prop where
  frames : c'.frames <:+ c.frames
  nextFrame : c'.nextFrame = c.nextFrame
  branches : c'.branches.map (·.here.branch) = c.branches.map (·.here.branch)
  branchCount : c'.branchCount = c.branchCount

theorem Sheds.refl (c : Context) : c.Sheds c := ⟨List.suffix_rfl, rfl, rfl, rfl⟩

theorem Sheds.trans (h : c.Sheds c') (h' : c'.Sheds c'') : c.Sheds c'' where
  frames := h'.frames.trans h.frames
  nextFrame := h'.nextFrame.trans h.nextFrame
  branches := h'.branches.trans h.branches
  branchCount := h'.branchCount.trans h.branchCount

theorem sheds_sync (c : Context) (site : Span) : c.Sheds (c.sync site) := by
  refine ⟨List.suffix_rfl, rfl, ?_, rfl⟩
  simp only [sync]
  cases c.branches <;> rfl

theorem sheds_exitThread (h : c.exitThread = .ok c') : c.Sheds c' := by
  simp only [exitThread] at h
  split at h
  · cases h
  · cases h
    exact ⟨List.suffix_rfl, rfl, rfl, rfl⟩

theorem sheds_define {kind : CapabilityKind} (h : c.define name kind site = .ok c') :
    c.Sheds c' := by
  simp only [define] at h
  split at h
  · cases h
  · split at h
    · cases h
    · cases h
      exact ⟨List.suffix_rfl, rfl, rfl, rfl⟩

theorem sheds_remark {kind : AccessKind} (h : c.remark name kind site = .ok c') : c.Sheds c' := by
  simp only [remark, bind, Except.bind] at h
  split at h
  · cases h
  · cases h
    exact ⟨List.suffix_rfl, rfl, rfl, rfl⟩

theorem Accesses.sheds {op : Context → String → Span → Except Fault (Option Violation × Context)}
    {step : Span → Lifecycle → Lifecycle} {kind : AccessKind} (accesses : Accesses op step kind)
    {w : Option Violation} (h : op c name site = .ok (w, c')) : c.Sheds c' := by
  obtain ⟨y, -, acts⟩ := accesses.acts_ok h
  obtain rfl | ⟨-, rfl⟩ := acts.changed
  · exact .refl _
  · exact ⟨List.suffix_rfl, rfl, rfl, rfl⟩

theorem sheds_exit {found : List Violation} (h : c.exit site = .ok (found, c')) : c.Sheds c' := by
  simp only [exit] at h
  split at h
  · cases h
  next f rest frames =>
    cases h
    exact ⟨frames ▸ List.suffix_cons f rest, rfl, rfl, rfl⟩

theorem sheds_nextArm (h : c.nextArm = .ok c') : c.Sheds c' := by
  simp only [nextArm] at h
  split at h
  · cases h
  next b rest branches =>
    cases h
    exact ⟨List.suffix_rfl, rfl, by simp [branches, OpenBranch.finishArm], rfl⟩

/-- Ending a branch closes it, and nothing else. -/
theorem branches_exitBranch (h : c.exitBranch site = .ok c') :
    c'.branches.map (·.here.branch) = (c.branches.map (·.here.branch)).tail ∧
      c'.branchCount = c.branchCount ∧ c'.nextFrame = c.nextFrame ∧ c'.frames = c.frames := by
  simp only [exitBranch] at h
  split at h
  · cases h
  next b rest branches =>
    rw [branches]
    cases h
    split
    · exact ⟨(sheds_sync { c with branches := rest } site).branches, rfl, rfl, rfl⟩
    · exact ⟨rfl, rfl, rfl, rfl⟩

theorem sheds_merge (c : Context) (arms : List Snapshot) : c.Sheds (c.merge arms) := by
  cases arms <;> exact ⟨List.suffix_rfl, rfl, rfl, rfl⟩

end Capability.Context

/-! ## Units that shed scopes -/

namespace CompilationUnit

variable {σ : Type} {u v w : CompilationUnit σ} {name : String} {site : Span}

/-- Scopes may have been closed.  No scope was opened, and no branch was opened or closed. -/
structure Sheds (u v : CompilationUnit σ) : Prop where
  capabilities : u.capabilities.Sheds v.capabilities
  forks : v.forks.map (·.entry) = u.forks.map (·.entry)

theorem Sheds.refl (u : CompilationUnit σ) : u.Sheds u := ⟨.refl _, rfl⟩

theorem Sheds.trans (h : u.Sheds v) (h' : v.Sheds w) : u.Sheds w :=
  ⟨h.capabilities.trans h'.capabilities, h'.forks.trans h.forks⟩

theorem Turns.sheds {bodies : List Body} {c : Capability.Context} {found : List Violation}
    (h : u.Turns v bodies c found) (sheds : u.capabilities.Sheds c) : u.Sheds v :=
  ⟨h.capabilities ▸ sheds, congrArg (List.map Fork.entry) h.forks⟩

theorem sheds_declare {type : Option Ty} {d : Declared}
    (h : (declare name type site).perform u = (.ok d, v)) : u.Sheds v := by
  obtain ⟨tracker, c, -, held, turns⟩ := declare_ok h
  refine turns.sheds ?_
  split at held
  next => exact Capability.Context.sheds_define held
  next =>
    rw [held]
    exact .refl _

theorem sheds_access {a : Ownership.Access} {x : Option Violation}
    (h : (access a name site).perform u = (.ok x, v)) : u.Sheds v := by
  obtain ⟨b, d, tracker, c, -, -, remarked, turns⟩ := access_ok h
  refine turns.sheds ?_
  obtain rfl | ⟨_, _, _, remarked⟩ := remarked
  · exact .refl _
  · exact Capability.Context.sheds_remark remarked

theorem sheds_release {x : Unit} (h : (release name site).perform u = (.ok x, v)) : u.Sheds v := by
  obtain ⟨b, d, tracker, -, -, turns⟩ := release_ok h
  exact turns.sheds (.refl _)

theorem sheds_capabilityAccess
    {op : Capability.Context → String → Span →
      Except Fault (Option Violation × Capability.Context)}
    {step : Span → Capability.Lifecycle → Capability.Lifecycle} {kind : Capability.AccessKind}
    (accesses : Capability.Context.Accesses op step kind) {x : Option Violation}
    (h : (capabilityAccess op name site).perform u = (.ok x, v)) : u.Sheds v := by
  obtain ⟨b, d, -, turns⟩ := capabilityAccess_ok h
  split at turns
  next =>
    obtain ⟨c, answer, turns⟩ := turns
    exact turns.sheds (accesses.sheds answer)
  next =>
    rw [turns]
    exact .refl u

theorem sheds_enterThread {tag : ThreadTag} {x : Unit}
    (h : (enterThread tag).perform u = (.ok x, v)) : u.Sheds v := by
  replace h := live_bind_ok h
  cases h
  exact ⟨⟨List.suffix_rfl, rfl, rfl, rfl⟩, rfl⟩

theorem sheds_exitThread {x : Unit} (h : exitThread.perform u = (.ok x, v)) : u.Sheds v := by
  replace h := live_bind_ok h
  obtain ⟨c, left, rfl⟩ := onCapabilities_ok h
  exact ⟨Capability.Context.sheds_exitThread left, rfl⟩

theorem sheds_sync {x : Unit} (h : (sync site).perform u = (.ok x, v)) : u.Sheds v := by
  replace h := live_bind_ok h
  cases h
  exact ⟨Capability.Context.sheds_sync _ site, rfl⟩

theorem sheds_nextArm {x : Unit} (h : nextArm.perform u = (.ok x, v)) : u.Sheds v := by
  obtain ⟨f, rest, c, forks, next, turns⟩ := nextArm_ok h
  have restored : u.capabilities.Sheds (u.capabilities.restore f.entry.capabilities) :=
    ⟨List.suffix_rfl, rfl, rfl, rfl⟩
  refine ⟨turns.capabilities ▸ restored.trans (Capability.Context.sheds_nextArm next), ?_⟩
  rw [turns.forks, forks]
  rfl

/-! Closings shed scopes, whether or not they fail. -/

theorem sheds_collectAll (u : CompilationUnit σ) (found : List Violation) :
    u.Sheds (u.collectAll found) :=
  (turns_collectAll u found).sheds (.refl _)

theorem sheds_andThen {first second : StateM (CompilationUnit σ) Sweep}
    (h : ∀ u : CompilationUnit σ, u.Sheds (first.run u).2)
    (h' : ∀ u : CompilationUnit σ, u.Sheds (second.run u).2) (u : CompilationUnit σ) :
    u.Sheds ((Sweep.andThen first second).run u).2 := by
  rcases run : first.run u with ⟨⟨early, fault⟩, w⟩
  have sheds := h u
  rw [run] at sheds
  cases fault with
  | some fault =>
      rw [run_andThen_fault run]
      exact sheds
  | none =>
      rcases run' : second.run w with ⟨⟨late, fault⟩, v⟩
      rw [run_andThen run run']
      have more := h' w
      rw [run'] at more
      exact sheds.trans more

theorem sheds_leaveFrame (site : Span) (u : CompilationUnit σ) :
    u.Sheds ((leaveFrame site).run u).2 := by
  rw [leaveFrame, run_get_bind]
  cases left : u.capabilities.exit site with
  | error fault => exact .refl u
  | ok result =>
      have first : u.Sheds { u with capabilities := result.2 } :=
        ⟨Capability.Context.sheds_exit left, rfl⟩
      exact first.trans (sheds_collectAll _ result.1)

theorem sheds_closeBlock (site : Span) (u : CompilationUnit σ) :
    u.Sheds ((closeBlock site).run u).2 := by
  rw [closeBlock, run_get_bind]
  cases blocks : u.current.blocks with
  | nil => exact .refl u
  | cons k rest =>
      cases left : u.current.tracker.exit with
      | error fault => exact .refl u
      | ok tracker =>
          have first := turns_changeCurrent (bodies_eq_cons u) ({ · with tracker, blocks := rest })
          exact (first.sheds (.refl _)).trans (sheds_leaveFrame site _)

theorem sheds_closeBlocks (site : Span) (blocks : List Block) :
    ∀ u : CompilationUnit σ, u.Sheds ((closeBlocks site blocks).run u).2 := by
  induction blocks with
  | nil => exact .refl
  | cons k rest ih => exact sheds_andThen (sheds_closeBlock site) ih

theorem sheds_exitBlock (site : Span) (u : CompilationUnit σ) :
    u.Sheds ((exitBlock site).run u).2 := by
  rw [exitBlock, run_get_bind]
  split
  · exact .refl u
  · exact sheds_closeBlock site u

theorem sheds_dropFunction (site : Span) (u : CompilationUnit σ) :
    u.Sheds ((dropFunction site).run u).2 := by
  have run : ∃ w, (dropFunction site).run u = (([], none), w) ∧
      w.capabilities = u.capabilities ∧ w.forks = u.forks := by
    refine ⟨_, rfl, ?_, ?_⟩ <;> cases functions : u.functions <;> simp [functions]
  obtain ⟨w, run, capabilities, forks⟩ := run
  rw [run]
  exact ⟨capabilities ▸ .refl _, congrArg (List.map Fork.entry) forks⟩

theorem sheds_flushQueue [Solver σ] (gaveUp : Nat → Bool) (u : CompilationUnit σ) :
    u.Sheds ((flushQueue gaveUp).run u).2 := by
  rw [flushQueue, run_get_bind]
  rcases (Discharger.flush gaveUp).run u.discharger with ⟨⟨found, fault⟩, d⟩
  have first : u.Sheds { u with discharger := d } := ⟨.refl _, rfl⟩
  exact first.trans (sheds_collectAll _ found)

theorem sheds_endFunction [Solver σ] (gaveUp : Nat → Bool) (site : Span) (u : CompilationUnit σ) :
    u.Sheds ((endFunction gaveUp site).run u).2 := by
  rw [endFunction, run_get_bind]
  split
  · exact .refl u
  · cases u.functions with
    | nil => exact .refl u
    | cons f rest =>
        exact sheds_andThen (sheds_flushQueue gaveUp) (sheds_andThen
          (sheds_closeBlocks site f.blocks)
          (sheds_andThen (sheds_leaveFrame site) (sheds_dropFunction site))) u

end CompilationUnit

end ResourceSafety
