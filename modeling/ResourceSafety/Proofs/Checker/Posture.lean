import ResourceSafety.Proofs.Checker.Shedding
import ResourceSafety.Proofs.Discharge.Mild

/-!
# What is open in a unit

The *posture* of a unit counts what is open: the scopes of each body, the thread regions and the
branches.  A unit *stands* in a posture when it is in lockstep with a journal of as many scopes,
has these regions and as many branches, and its solver sessions open mildly.

A request changes the posture as its name says (`Posture.after`).  It is refused with a fault
that is not mild only where the posture has nothing to close (`Posture.Allows`).
-/

namespace ResourceSafety

open Logic (Action MildSolver Solver)
open Logic.Action (Fares Rests)

/-! ## Trackers and capabilities -/

namespace Ownership.Tracker

theorem spares_lookup (t : Tracker) (name : String) : Fault.Spares (t.lookup name) := by
  unfold lookup
  split
  · exact Fault.spares_ok _
  · exact Fault.spares_error (Fault.mild_unknownBinding name)

theorem spares_define (t : Tracker) (name : String) (site : Span) :
    Fault.Spares (t.define name site) := by
  unfold define
  split
  · exact Fault.spares_error (Fault.mild_duplicateBinding name)
  · exact Fault.spares_ok _

theorem spares_access (t : Tracker) (a : Access) (name : String) (site : Span) :
    Fault.Spares (t.access a name site) := by
  refine Fault.spares_bind (spares_lookup t name) fun b => ?_
  split
  · exact Fault.spares_ok _
  · exact Fault.spares_ok _

theorem spares_release (t : Tracker) (name : String) (site : Span) :
    Fault.Spares (t.release name site) := by
  refine Fault.spares_bind (spares_lookup t name) fun b => ?_
  split
  · exact Fault.spares_error (Fault.mild_noActiveBorrow name)
  · exact Fault.spares_ok _

end Ownership.Tracker

namespace Capability.Context

variable {c c' : Context} {name : String} {site : Span}

/-- The open thread regions, innermost first. -/
def regions (c : Context) : List ThreadTag := c.thread :: c.outerThreads

theorem spares_lookup (c : Context) (name : String) : Fault.Spares (c.lookup name) := by
  unfold lookup
  split
  · exact Fault.spares_ok _
  · exact Fault.spares_error (Fault.mild_unknownBinding name)

theorem spares_define (inside : c.frames ≠ []) (name : String) (kind : CapabilityKind)
    (site : Span) : Fault.Spares (c.define name kind site) := by
  unfold define
  split
  next none => exact absurd none inside
  next =>
    split
    · exact Fault.spares_error (Fault.mild_duplicateBinding name)
    · exact Fault.spares_ok _

theorem regions_define {kind : CapabilityKind} (h : c.define name kind site = .ok c') :
    c'.regions = c.regions := by
  simp only [define] at h
  split at h
  · cases h
  · split at h
    · cases h
    · cases h
      rfl

theorem spares_remark (c : Context) (name : String) (kind : AccessKind) (site : Span) :
    Fault.Spares (c.remark name kind site) :=
  Fault.spares_bind (spares_lookup c name) fun _ => Fault.spares_ok _

theorem regions_remark {kind : AccessKind} (h : c.remark name kind site = .ok c') :
    c'.regions = c.regions := by
  simp only [remark, bind, Except.bind] at h
  split at h
  · cases h
  · cases h
    rfl

/-- An operation that is refused knows no capability of the name. -/
theorem Accesses.spares {op : Context → String → Span → Except Fault (Option Violation × Context)}
    {step : Span → Lifecycle → Lifecycle} {kind : AccessKind} (accesses : Accesses op step kind)
    (c : Context) (name : String) (site : Span) : Fault.Spares (op c name site) := by
  cases found : c.find? name with
  | none =>
    rw [accesses.missing site found]
    exact Fault.spares_error (Fault.mild_unknownBinding name)
  | some y =>
    obtain ⟨w, c', answer, -⟩ := accesses.acts site found
    rw [answer]
    exact Fault.spares_ok _

theorem Accesses.regions {op : Context → String → Span → Except Fault (Option Violation × Context)}
    {step : Span → Lifecycle → Lifecycle} {kind : AccessKind} (accesses : Accesses op step kind)
    {w : Option Violation} (h : op c name site = .ok (w, c')) : c'.regions = c.regions := by
  obtain ⟨y, -, acts⟩ := accesses.acts_ok h
  obtain rfl | ⟨-, rfl⟩ := acts.changed
  · rfl
  · rfl

theorem regions_exit {found : List Violation} (h : c.exit site = .ok (found, c')) :
    c'.regions = c.regions := by
  simp only [exit] at h
  split at h
  · cases h
  · cases h
    rfl

theorem regions_nextArm (h : c.nextArm = .ok c') : c'.regions = c.regions := by
  simp only [nextArm] at h
  split at h
  · cases h
  · cases h
    rfl

theorem spares_nextArm (inside : c.branches ≠ []) : Fault.Spares c.nextArm := by
  unfold nextArm
  split
  next none => exact absurd none inside
  next => exact Fault.spares_ok _

theorem spares_exitBranch (inside : c.branches ≠ []) (site : Span) :
    Fault.Spares (c.exitBranch site) := by
  unfold exitBranch
  split
  next none => exact absurd none inside
  next => exact Fault.spares_ok _

theorem regions_exitBranch (h : c.exitBranch site = .ok c') : c'.regions = c.regions := by
  simp only [exitBranch] at h
  split at h
  · cases h
  · cases h
    split
    · rfl
    · rfl

theorem regions_merge (c : Context) (arms : List Snapshot) : (c.merge arms).regions = c.regions := by
  cases arms <;> rfl

end Capability.Context

/-! ## Requests that open and close nothing -/

namespace CompilationUnit

variable {σ : Type} {u v w : CompilationUnit σ}

/-- No thread region and no branch was opened or closed, and sessions open as mildly. -/
structure Level (u v : CompilationUnit σ) : Prop where
  regions : v.capabilities.regions = u.capabilities.regions
  forks : v.forks.length = u.forks.length
  opens : u.discharger.OpensMildly → v.discharger.OpensMildly

theorem Level.refl (u : CompilationUnit σ) : u.Level u := ⟨rfl, rfl, id⟩

theorem Level.trans (h : u.Level v) (h' : v.Level w) : u.Level w :=
  ⟨h'.regions.trans h.regions, h'.forks.trans h.forks, h'.opens ∘ h.opens⟩

theorem level_changeCurrent (u : CompilationUnit σ) (f : Body → Body) :
    u.Level (u.changeCurrent f) := by
  unfold changeCurrent
  split
  · exact ⟨rfl, rfl, id⟩
  · exact ⟨rfl, rfl, id⟩

theorem level_collectAll (u : CompilationUnit σ) (found : List Violation) :
    u.Level (u.collectAll found) := by
  rw [collectAll_eq]
  exact ⟨rfl, rfl, id⟩

theorem level_capabilities {c : Capability.Context} (same : c.regions = u.capabilities.regions) :
    u.Level { u with capabilities := c } :=
  ⟨same, rfl, id⟩

/-- A request to a unit that is not finished goes past the first check. -/
theorem fares_live {α : Type} {Q : α → CompilationUnit σ → Prop} (live : u.finished = false)
    {k : Unit → Action (CompilationUnit σ) α} (h : Fares Q (k ()) u) :
    Fares Q (requireLive >>= k) u := by
  unfold Fares
  rw [perform_live_bind live]
  exact h

theorem fares_onCapabilities {f : Capability.Context → Except Fault Capability.Context}
    {Q : Unit → CompilationUnit σ → Prop} (mild : Fault.Spares (f u.capabilities))
    (done : ∀ c, f u.capabilities = .ok c → Q () { u with capabilities := c }) :
    Fares Q (onCapabilities f) u :=
  .get_bind (.answer_bind mild fun c answer => .modify (done c answer))

theorem spares_locate (u : CompilationUnit σ) (name : String) : Fault.Spares (u.locate name) := by
  unfold locate
  split
  · exact Fault.spares_ok _
  · exact Fault.spares_error (Fault.mild_unknownBinding name)

theorem fares_declare (live : u.finished = false) (inside : u.capabilities.frames ≠ [])
    (name : String) (type : Option Ty) (site : Span) :
    Fares (fun _ v => u.Level v) (declare name type site) u := by
  refine fares_live live (.get_bind ?_)
  split
  · exact .throw_bind (Fault.mild_duplicateBinding name)
  · refine .answer_bind (Ownership.Tracker.spares_define _ _ _) fun tracker _ => .modify_bind ?_
    have first := level_changeCurrent u fun b => { b with tracker }
    have same := (turns_changeCurrent (bodies_eq_cons u) fun b => { b with tracker }).capabilities
    dsimp only
    split
    next kind _ =>
      refine .bind (fares_onCapabilities ?_ fun c new => ?_) fun _ v level =>
        .modify_bind (.pure (Level.trans level (level_changeCurrent v _)))
      · rw [same]
        exact Capability.Context.spares_define inside name kind site
      · exact first.trans (level_capabilities (Capability.Context.regions_define new))
    next => exact .modify_bind (.pure (first.trans (level_changeCurrent _ _)))

theorem fares_remark (u : CompilationUnit σ) (d : Declared) (a : Ownership.Access) (site : Span) :
    Fares (fun _ v => u.Level v) (remark d a site) u := by
  unfold remark
  split
  next kind _ =>
    split
    · exact fares_onCapabilities (Capability.Context.spares_remark _ _ _ _) fun c noted =>
        level_capabilities (Capability.Context.regions_remark noted)
    · exact .pure (.refl u)
  next => exact .pure (.refl u)

theorem fares_access (live : u.finished = false) (a : Ownership.Access) (name : String)
    (site : Span) : Fares (fun _ v => u.Level v) (access a name site) u := by
  refine fares_live live (.get_bind (.answer_bind (spares_locate u name) fun (b, d) _ => ?_))
  refine .answer_bind (Ownership.Tracker.spares_access _ _ _ _) fun (w, tracker) _ =>
    .modify_bind ?_
  have first : u.Level (u.changeBody b.id ({ · with tracker })) := ⟨rfl, rfl, id⟩
  cases w with
  | some w => exact .modify_bind (.pure (first.trans (level_collectAll _ [w])))
  | none =>
    exact (fares_remark _ d a site).bind fun _ _ level => .pure (first.trans level)

theorem fares_release (live : u.finished = false) (name : String) (site : Span) :
    Fares (fun _ v => u.Level v) (release name site) u := by
  refine fares_live live (.get_bind (.answer_bind (spares_locate u name) fun (b, d) _ => ?_))
  exact .answer_bind (Ownership.Tracker.spares_release _ _ _) fun tracker _ =>
    .modify ⟨rfl, rfl, id⟩

theorem fares_capabilityAccess (live : u.finished = false)
    {op : Capability.Context → String → Span →
      Except Fault (Option Violation × Capability.Context)}
    {step : Span → Capability.Lifecycle → Capability.Lifecycle} {kind : Capability.AccessKind}
    (accesses : Capability.Context.Accesses op step kind) (name : String) (site : Span) :
    Fares (fun _ v => u.Level v) (capabilityAccess op name site) u := by
  refine fares_live live (.get_bind (.answer_bind (spares_locate u name) fun (b, d) _ => ?_))
  dsimp only
  split
  · exact .pure (.refl u)
  · refine .get_bind (.answer_bind (accesses.spares _ _ _) fun (w, c) answer => .modify_bind ?_)
    have first := level_capabilities (u := u) (accesses.regions answer)
    cases w with
    | some w => exact .modify_bind (.pure (first.trans (level_collectAll _ [w])))
    | none => exact .bind (.pure first) fun _ _ level => .pure level

/-- A request to the discharger. -/
theorem fares_onDischarger {α : Type} (live : u.finished = false)
    (opens : u.discharger.OpensMildly) {a : Action (Discharger σ) α}
    (h : Discharger.Keeping a) :
    Fares (fun _ v => u.Level v) (do requireLive; onDischarger a) u := by
  refine fares_live live (.get_bind ?_)
  have kept := h _ opens
  unfold Fares at kept
  rcases run : a.perform u.discharger with ⟨fault | x, d⟩
  · rw [run] at kept
    exact .modify_bind (.throw kept)
  · rw [run] at kept
    exact .modify_bind (.pure ⟨rfl, rfl, fun _ => kept⟩)

/-! ## Closings -/

theorem level_leaveFrame (site : Span) (u : CompilationUnit σ) :
    u.Level ((leaveFrame site).run u).2 := by
  rw [leaveFrame, run_get_bind]
  cases left : u.capabilities.exit site with
  | error fault => exact .refl u
  | ok result =>
    exact (level_capabilities (Capability.Context.regions_exit left)).trans
      (level_collectAll _ result.1)

theorem level_closeBlock (site : Span) (u : CompilationUnit σ) :
    u.Level ((closeBlock site).run u).2 := by
  rw [closeBlock, run_get_bind]
  cases blocks : u.current.blocks with
  | nil => exact .refl u
  | cons k rest =>
    cases left : u.current.tracker.exit with
    | error fault => exact .refl u
    | ok tracker => exact (level_changeCurrent u _).trans (level_leaveFrame site _)

theorem level_closeBlocks (site : Span) {blocks : List Block} {found : List Violation}
    (h : (closeBlocks site blocks).run u = ((found, none), v)) : u.Level v := by
  induction blocks generalizing u found with
  | nil =>
    cases h
    exact .refl _
  | cons k rest ih =>
    obtain ⟨w, early, late, first, second, -⟩ := andThen_ok h
    have level := level_closeBlock site u
    rw [first] at level
    exact level.trans (ih second)

theorem level_dropFunction (site : Span) (u : CompilationUnit σ) :
    u.Level ((dropFunction site).run u).2 := by
  have run : ∃ w, (dropFunction site).run u = (([], none), w) ∧ u.Level w := by
    refine ⟨_, rfl, ?_⟩
    dsimp only
    split
    · exact .refl u
    · exact ⟨rfl, rfl, id⟩
  obtain ⟨w, run, level⟩ := run
  rw [run]
  exact level

variable [Solver σ] [MildSolver σ]

theorem rests_flushQueue (opens : u.discharger.OpensMildly) (gaveUp : Nat → Bool) :
    Rests (u.Level ·) (flushQueue gaveUp) u := by
  have rests := Discharger.rests_flush gaveUp opens
  unfold Rests at rests ⊢
  rw [flushQueue, run_get_bind]
  rcases run : (Discharger.flush gaveUp).run u.discharger with ⟨⟨found, fault⟩, d⟩
  rw [run] at rests
  cases fault with
  | some fault => exact rests
  | none =>
    have first : u.Level { u with discharger := d } := ⟨rfl, rfl, fun _ => rests⟩
    exact first.trans (level_collectAll _ found)

theorem level_endFunction (opens : u.discharger.OpensMildly) {gaveUp : Nat → Bool} {site : Span}
    {found : List Violation} (h : (endFunction gaveUp site).run u = ((found, none), v)) :
    u.Level v := by
  rw [endFunction, run_get_bind] at h
  split at h
  · cases h
  · split at h
    · cases h
    · obtain ⟨w₁, _, _, flushed, h, -⟩ := andThen_ok h
      obtain ⟨w₂, _, _, closed, h, -⟩ := andThen_ok h
      obtain ⟨w₃, _, _, left, dropped, -⟩ := andThen_ok h
      have first := rests_flushQueue opens gaveUp
      unfold Rests at first
      rw [flushed] at first
      have third := level_leaveFrame site w₂
      rw [left] at third
      have fourth := level_dropFunction site w₃
      rw [dropped] at fourth
      exact first.trans ((level_closeBlocks site closed).trans (third.trans fourth))

end CompilationUnit

/-! ## Postures -/

/-- What is open in a unit. -/
structure Posture where
  /-- The numbers of scopes of the open bodies, innermost body first. -/
  scopes : List Nat
  /-- The thread regions, innermost first. -/
  regions : List ThreadTag
  /-- The number of open branches. -/
  branches : Nat

namespace Posture

/-- The posture of a new unit. -/
def start : Posture := ⟨[1], [mainThread], 0⟩

/-- The posture after a request that succeeded. -/
def after (p : Posture) : CompilationUnit.Request → Posture
  | .enterThread tag => { p with regions := tag :: p.regions }
  | .exitThread => { p with regions := p.regions.tail }
  | .enterBlock _ => { p with scopes := p.scopes.modifyHead (· + 1) }
  | .exitBlock _ => { p with scopes := p.scopes.modifyHead (· - 1) }
  | .beginFunction _ _ => { p with scopes := 1 :: p.scopes }
  | .endFunction _ _ => { p with scopes := p.scopes.tail }
  | .beginBranch => { p with branches := p.branches + 1 }
  | .endBranch _ => { p with branches := p.branches - 1 }
  | _ => p

/-- What the request closes is open. -/
def Allows (p : Posture) : CompilationUnit.Request → Prop
  | .exitThread => 1 < p.regions.length
  | .exitBlock _ => ∃ n, 1 < n ∧ p.scopes.head? = some n
  | .endFunction _ _ => 1 < p.scopes.length
  | .nextArm | .endBranch _ => 0 < p.branches
  | _ => True

end Posture

namespace CompilationUnit

variable {σ : Type} {u v : CompilationUnit σ} {p : Posture}

/-- The unit has open what the posture counts. -/
structure Stands (u : CompilationUnit σ) (p : Posture) : Prop where
  lockstep : ∃ j : Journal, u.Lockstep j ∧ j.map (·.scopes.length) = p.scopes
  regions : u.capabilities.regions = p.regions
  forks : u.forks.length = p.branches
  opens : u.discharger.OpensMildly

theorem Stands.live (h : u.Stands p) : u.finished = false := by
  obtain ⟨j, lock, -⟩ := h.lockstep
  exact lock.live

theorem Stands.frames (h : u.Stands p) : u.capabilities.frames ≠ [] := by
  obtain ⟨j, lock, -⟩ := h.lockstep
  obtain ⟨f, rest, frames⟩ := lock.exists_frame
  rw [frames]
  exact List.cons_ne_nil f rest

theorem Stands.exists_page (h : u.Stands p) :
    ∃ rest, p.scopes = (u.current.blocks.length + 1) :: rest := by
  obtain ⟨j, lock, scopes⟩ := h.lockstep
  obtain ⟨page, rest, rfl, describes, -⟩ := lock.exists_page
  have count := describes.length_scopes
  simp only [Body.outline] at count
  exact ⟨_, by rw [← scopes, List.map_cons, count]⟩

/-- With a branch open in the unit, one is open in its capabilities. -/
theorem Stands.exists_fork (h : u.Stands p) (allowed : 0 < p.branches) :
    ∃ f rest, u.forks = f :: rest ∧ u.capabilities.branches ≠ [] := by
  obtain ⟨j, lock, -⟩ := h.lockstep
  rw [← h.forks] at allowed
  obtain ⟨f, rest, forks⟩ := List.exists_cons_of_length_pos allowed
  refine ⟨f, rest, forks, ?_⟩
  rw [← List.length_pos_iff, lock.branches]
  exact allowed

theorem length_scopes_onPage {f : List (List Made) → List (List Made)} {g : Nat → Nat}
    (change : ∀ scopes, (f scopes).length = g scopes.length) (j : Journal) :
    (j.onPage f).map (·.scopes.length) = (j.map (·.scopes.length)).modifyHead g := by
  cases j with
  | nil => rfl
  | cons page rest => simp [Journal.onPage, change]

/-- The journal counts what the posture says. -/
theorem length_scopes_noted {j : Journal} (h : j.map (·.scopes.length) = p.scopes) (r : Request) :
    (u.noted j r).map (·.scopes.length) = (p.after r).scopes := by
  cases r with
  | declare name type site =>
    have write (m : Made) (scopes : List (List Made)) :
        (Journal.write m scopes).length = id scopes.length := by cases scopes <;> rfl
    exact (length_scopes_onPage (write _) j).trans (by rw [List.modifyHead_id, id, h]; rfl)
  | enterBlock site =>
    exact (length_scopes_onPage (g := (· + 1)) (fun _ => rfl) j).trans (by rw [h]; rfl)
  | exitBlock site =>
    exact (length_scopes_onPage (g := (· - 1)) (fun _ => List.length_tail) j).trans (by rw [h]; rfl)
  | beginFunction name site => exact congrArg (List.cons 1) h
  | endFunction gaveUp site => exact List.map_tail.trans (congrArg List.tail h)
  | _ => exact h

variable [Solver σ] {r : Request} {Q : CompilationUnit σ → Prop}

/-- The request succeeds as the postcondition says, or is refused with a mild fault. -/
def Serves (Q : CompilationUnit σ → Prop) (u : CompilationUnit σ) (r : Request) : Prop :=
  match u.serve r with
  | (none, v) => Q v
  | (some fault, _) => fault.Mild

theorem serves_iff_fares {α : Type} {a : Action (CompilationUnit σ) α}
    (serve : u.serve r = u.outcome a) : u.Serves Q r ↔ Fares (fun _ v => Q v) a u := by
  unfold Serves Fares
  rw [serve, outcome]
  rcases a.perform u with ⟨fault | x, v⟩
  · rfl
  · rfl

theorem serves_iff_rests {a : StateM (CompilationUnit σ) Sweep} (serve : u.serve r = u.swept a) :
    u.Serves Q r ↔ Rests Q a u := by
  unfold Serves Rests
  rw [serve, swept]
  cases (a.run u).1.2 with
  | none => rfl
  | some fault => rfl

/-- The journal accounts for the scopes, so only regions and branches have to be looked at. -/
theorem Stands.serves_of (h : u.Stands p)
    (served : u.Serves (fun v => v.capabilities.regions = (p.after r).regions ∧
      v.forks.length = (p.after r).branches ∧ v.discharger.OpensMildly) r) :
    u.Serves (·.Stands (p.after r)) r := by
  obtain ⟨j, lock, scopes⟩ := h.lockstep
  unfold Serves at served ⊢
  obtain ⟨v, run, lock'⟩ | ⟨fault, v, run, -⟩ := lock.serve r
  · rw [run] at served ⊢
    exact ⟨⟨_, lock', length_scopes_noted scopes r⟩, served.1, served.2.1, served.2.2⟩
  · rw [run] at served ⊢
    exact served

/-- The request opens and closes no region and no branch. -/
theorem Stands.serves_level (h : u.Stands p) (regions : (p.after r).regions = p.regions)
    (branches : (p.after r).branches = p.branches) (level : u.Serves (u.Level ·) r) :
    u.Serves (·.Stands (p.after r)) r := by
  refine h.serves_of ?_
  unfold Serves at level ⊢
  rcases run : u.serve r with ⟨_ | fault, v⟩
  · rw [run] at level
    exact ⟨(level.regions.trans h.regions).trans regions.symm,
      (level.forks.trans h.forks).trans branches.symm, level.opens h.opens⟩
  · rw [run] at level
    exact level

theorem Stands.serves_exitBlock (h : u.Stands p) {site : Span} (allowed : p.Allows (.exitBlock site)) :
    u.Serves (·.Stands (p.after (.exitBlock site))) (.exitBlock site) := by
  refine h.serves_level rfl rfl ((serves_iff_rests rfl).mpr ?_)
  obtain ⟨j, lock, scopes⟩ := h.lockstep
  obtain ⟨page, rest, rfl, describes, -⟩ := lock.exists_page
  obtain ⟨n, several, first⟩ := allowed
  have length : n = u.current.blocks.length + 1 := by
    rw [← scopes] at first
    have count := describes.length_scopes
    simp only [Body.outline] at count
    exact (Option.some.inj first).symm.trans count
  obtain ⟨k, blocks, open_⟩ : ∃ k blocks, u.current.blocks = k :: blocks :=
    List.exists_cons_of_length_pos (by omega)
  have level := level_closeBlock site u
  obtain ⟨found, v, run, -⟩ := lock.closeBlock site open_
  unfold Rests
  rw [exitBlock, run_get_bind, if_neg (by simp [lock.live])]
  rw [run] at level ⊢
  exact level

theorem Stands.serves_endFunction [MildSolver σ] (h : u.Stands p) {gaveUp : Nat → Bool} {site : Span}
    (allowed : p.Allows (.endFunction gaveUp site)) :
    u.Serves (·.Stands (p.after (.endFunction gaveUp site))) (.endFunction gaveUp site) := by
  refine h.serves_level rfl rfl ((serves_iff_rests rfl).mpr ?_)
  obtain ⟨j, lock, scopes⟩ := h.lockstep
  have inside : u.functions ≠ [] := by
    have pages := lock.pages.length_eq
    have count := congrArg List.length scopes
    have several : 1 < p.scopes.length := allowed
    simp only [outline, List.length_map, length_functions] at pages count
    rw [← List.length_pos_iff]
    omega
  obtain ⟨found, fault, v, run, -, flushed⟩ := lock.endFunction gaveUp site inside
  unfold Rests
  rw [run]
  cases fault with
  | none => exact level_endFunction h.opens run
  | some fault =>
    have rests := rests_flushQueue h.opens gaveUp
    unfold Rests at rests
    rw [flushed] at rests
    exact rests

theorem Stands.serves_exitThread (h : u.Stands p) (allowed : p.Allows .exitThread) :
    u.Serves (·.Stands (p.after .exitThread)) .exitThread := by
  refine h.serves_of ((serves_iff_fares rfl).mpr (fares_live h.live ?_))
  have several : 1 < p.regions.length := allowed
  rw [← h.regions] at several
  obtain ⟨tag, rest, outer⟩ : ∃ tag rest, u.capabilities.outerThreads = tag :: rest :=
    List.exists_cons_of_length_pos (Nat.lt_of_succ_lt_succ several)
  have left : u.capabilities.exitThread =
      .ok { u.capabilities with thread := tag, outerThreads := rest } := by
    simp only [Capability.Context.exitThread, outer]
  refine fares_onCapabilities (left ▸ Fault.spares_ok _) fun c answer => ⟨?_, h.forks, h.opens⟩
  cases left.symm.trans answer
  exact outer.symm.trans (congrArg List.tail h.regions)

theorem Stands.serves_nextArm (h : u.Stands p) (allowed : p.Allows .nextArm) :
    u.Serves (·.Stands (p.after .nextArm)) .nextArm := by
  obtain ⟨f, rest, forks, inside⟩ := h.exists_fork allowed
  refine h.serves_level rfl rfl ((serves_iff_fares rfl).mpr (fares_live h.live (.get_bind ?_)))
  simp only [forks]
  refine .set_bind (fares_onCapabilities (Capability.Context.spares_nextArm inside) fun c next => ?_)
  have regions := Capability.Context.regions_nextArm next
  exact ⟨regions, by rw [forks]; rfl, id⟩

theorem Stands.serves_endBranch (h : u.Stands p) {site : Span} (allowed : p.Allows (.endBranch site)) :
    u.Serves (·.Stands (p.after (.endBranch site))) (.endBranch site) := by
  obtain ⟨f, rest, forks, inside⟩ := h.exists_fork allowed
  refine h.serves_of ((serves_iff_fares rfl).mpr (fares_live h.live (.get_bind ?_)))
  simp only [forks]
  have fewer : rest.length = p.branches - 1 := by rw [← h.forks, forks]; rfl
  refine .set_bind (.bind (Q := fun _ v => v.capabilities.regions = p.regions ∧
    v.forks.length = p.branches - 1 ∧ v.discharger.OpensMildly) ?_ fun _ v ended => ?_)
  · refine fares_onCapabilities (Capability.Context.spares_exitBranch inside site) fun c left => ?_
    exact ⟨(Capability.Context.regions_exitBranch left).trans h.regions, fewer, h.opens⟩
  · obtain ⟨regions, branches, opens⟩ := ended
    exact .modify ⟨(Capability.Context.regions_merge _ _).trans regions, branches, opens⟩

/-- Every request that closes what is open succeeds and changes the posture, or is refused with
a mild fault. -/
theorem Stands.serves [MildSolver σ] (h : u.Stands p) (allowed : p.Allows r) :
    u.Serves (·.Stands (p.after r)) r := by
  cases r with
  | declare name type site =>
    exact h.serves_level rfl rfl
      ((serves_iff_fares rfl).mpr (fares_declare h.live h.frames name type site))
  | access a name site =>
    exact h.serves_level rfl rfl ((serves_iff_fares rfl).mpr (fares_access h.live a name site))
  | release name site =>
    exact h.serves_level rfl rfl ((serves_iff_fares rfl).mpr (fares_release h.live name site))
  | use name site =>
    exact h.serves_level rfl rfl ((serves_iff_fares rfl).mpr
      (fares_capabilityAccess h.live Capability.Context.accesses_use name site))
  | consume name site =>
    exact h.serves_level rfl rfl ((serves_iff_fares rfl).mpr
      (fares_capabilityAccess h.live Capability.Context.accesses_consume name site))
  | share name site =>
    exact h.serves_level rfl rfl ((serves_iff_fares rfl).mpr
      (fares_capabilityAccess h.live Capability.Context.accesses_share name site))
  | enterThread tag =>
    refine h.serves_of ((serves_iff_fares rfl).mpr (fares_live h.live (.modify ?_)))
    exact ⟨congrArg (List.cons tag) h.regions, h.forks, h.opens⟩
  | exitThread => exact h.serves_exitThread allowed
  | sync site =>
    exact h.serves_level rfl rfl
      ((serves_iff_fares rfl).mpr (fares_live h.live (.modify ⟨rfl, rfl, id⟩)))
  | require o =>
    exact h.serves_level rfl rfl ((serves_iff_fares rfl).mpr
      (fares_onDischarger h.live h.opens (Discharger.keeping_enqueue o)))
  | freshHandle cancelled text =>
    exact h.serves_level rfl rfl ((serves_iff_fares rfl).mpr
      (fares_onDischarger h.live h.opens (Discharger.keeping_freshSymbol cancelled text)))
  | assertShape cancelled symbol dims =>
    exact h.serves_level rfl rfl ((serves_iff_fares rfl).mpr
      (fares_onDischarger h.live h.opens (Discharger.keeping_assertShape cancelled symbol dims)))
  | assume cancelled fact =>
    exact h.serves_level rfl rfl ((serves_iff_fares rfl).mpr
      (fares_onDischarger h.live h.opens (Discharger.keeping_pushConstraint cancelled fact)))
  | enterBlock site =>
    refine h.serves_level rfl rfl ((serves_iff_fares rfl).mpr (fares_live h.live (.modify ?_)))
    have same := (turns_changeCurrent (bodies_eq_cons u) (enterBody site)).capabilities
    exact (level_changeCurrent u (enterBody site)).trans (level_capabilities (by rw [same]; rfl))
  | exitBlock site => exact h.serves_exitBlock allowed
  | beginFunction name site =>
    exact h.serves_level rfl rfl
      ((serves_iff_fares rfl).mpr (fares_live h.live (.modify ⟨rfl, rfl, id⟩)))
  | endFunction gaveUp site => exact h.serves_endFunction allowed
  | beginBranch =>
    refine h.serves_of ((serves_iff_fares rfl).mpr (fares_live h.live (.modify ?_)))
    exact ⟨h.regions, congrArg (· + 1) h.forks, h.opens⟩
  | nextArm => exact h.serves_nextArm allowed
  | endBranch site => exact h.serves_endBranch allowed

end CompilationUnit

end ResourceSafety
