import ResourceSafety.Proofs.Capability.Simple
import ResourceSafety.Proofs.Checker.Outline
import ResourceSafety.Proofs.Ownership.Simple

/-!
# Units without borrows and threads

A unit is *simple* when nothing is borrowed and there is no thread region, now and at the
moments that its open branches remember.  Requests that borrow nothing and open no thread region
keep a unit simple.
-/

namespace ResourceSafety

open Logic (Action Solver)

/-- Nothing is borrowed at the moment, and consuming sites belong to consumptions. -/
structure Moment.Simple (m : Moment) : Prop where
  bodies : ∀ b ∈ m.bodies, ∀ x ∈ b.2, x.2.Idle
  capabilities : ∀ x ∈ m.capabilities, x.2.Dated

/-- All moments that the branch remembers are simple. -/
structure Fork.Simple (f : Fork) : Prop where
  entry : f.entry.Simple
  arms : ∀ m ∈ f.arms, m.Simple

namespace CompilationUnit

variable {σ : Type} {u v : CompilationUnit σ}

/-- Nothing is borrowed and there is no thread region, now and in what is remembered. -/
structure Simple (u : CompilationUnit σ) : Prop where
  bodies : ∀ b ∈ u.bodies, b.tracker.Idle
  capabilities : u.capabilities.Simple
  forks : ∀ f ∈ u.forks, f.Simple

theorem simple_fresh (name : String) (registry : Registry) (config : CheckerConfig) (run : String)
    (opening : Bool → Except Fault σ) : (fresh name registry config run opening).Simple where
  bodies := by
    intro b mem
    rw [List.mem_singleton.mp mem]
    exact Ownership.Tracker.idle_empty
  capabilities := Capability.Context.simple_empty config.strict
  forks := fun f mem => absurd mem List.not_mem_nil

theorem Turns.simple {bodies : List Body} {c : Capability.Context} {found : List Violation}
    (h : u.Turns v bodies c found) (idle : ∀ b ∈ bodies, b.tracker.Idle) (simple : c.Simple)
    (forks : ∀ f ∈ u.forks, f.Simple) : v.Simple where
  bodies := h.bodies ▸ idle
  capabilities := h.capabilities ▸ simple
  forks := h.forks ▸ forks

namespace Simple

variable {x : Unit} {site : Span} {name : String}

theorem outer (h : u.Simple) : ∀ b ∈ u.bodies.tail, b.tracker.Idle :=
  fun b mem => h.bodies b (List.mem_of_mem_tail mem)

/-! ## Declarations and accesses -/

theorem declare (h : u.Simple) {type : Option Ty} {d : Declared}
    (hu : (declare name type site).perform u = (.ok d, v)) : v.Simple := by
  obtain ⟨tracker, c, defined, held, turns⟩ := declare_ok hu
  refine turns.simple (List.forall_mem_cons.mpr ⟨?_, h.outer⟩) ?_ h.forks
  · rw [tracker_addName]
    exact (h.bodies _ u.current_mem).define defined
  · split at held
    · exact h.capabilities.define held
    · rw [held]
      exact h.capabilities

theorem access (h : u.Simple) (n : u.Counted) {a : Ownership.Access}
    (unborrowed : ∀ x, a ≠ .borrow x) {w : Option Violation}
    (hu : (access a name site).perform u = (.ok w, v)) : v.Simple := by
  obtain ⟨b, d, tracker, c, located, accessed, remarked, turns⟩ := access_ok hu
  have mem := mem_bodies_of_locate? located
  refine turns.simple (fun x mx => ?_) (h.capabilities.remarked remarked) h.forks
  obtain ⟨y, my, rfl⟩ := List.mem_map.mp mx
  split
  · exact (h.bodies b mem).access (n.trackers b mem) unborrowed accessed
  · exact h.bodies y my

theorem capabilityAccess (h : u.Simple)
    {op : Capability.Context → String → Span → Except Fault (Option Violation × Capability.Context)}
    {step : Span → Capability.Lifecycle → Capability.Lifecycle} {kind : Capability.AccessKind}
    (accesses : Capability.Context.Accesses op step kind)
    (uniform : Capability.Lifecycle.Uniform (step site)) {w : Option Violation}
    (hu : (capabilityAccess op name site).perform u = (.ok w, v)) : v.Simple := by
  obtain ⟨b, d, -, turns⟩ := capabilityAccess_ok hu
  split at turns
  · obtain ⟨c, reached, turns⟩ := turns
    obtain ⟨y, found, acts⟩ := accesses.acts_ok reached
    have mem := Capability.Context.mem_table_of_find? found
    exact turns.simple h.bodies (h.capabilities.acts uniform acts mem) h.forks
  · exact turns ▸ h

/-! ## Blocks and functions -/

theorem enterBlock (h : u.Simple) (hu : (enterBlock site).perform u = (.ok x, v)) : v.Simple :=
  (enterBlock_ok hu).simple
    (List.forall_mem_cons.mpr ⟨(h.bodies _ u.current_mem).enter, h.outer⟩)
    h.capabilities.enter h.forks

theorem exitBlock (h : u.Simple) {found : List Violation}
    (hu : (exitBlock site).run u = ((found, none), v)) : v.Simple := by
  obtain ⟨k, blocks, tracker, c, -, exits, leaves, turns⟩ := closeBlock_ok (exitBlock_ok hu)
  exact turns.simple (List.forall_mem_cons.mpr ⟨(h.bodies _ u.current_mem).exit exits, h.outer⟩)
    (h.capabilities.leaves leaves) h.forks

theorem beginFunction (h : u.Simple) (hu : (beginFunction name site).perform u = (.ok x, v)) :
    v.Simple :=
  (beginFunction_ok hu).simple
    (List.forall_mem_cons.mpr ⟨Ownership.Tracker.idle_empty, h.bodies⟩)
    h.capabilities.enter h.forks

theorem endFunction [Solver σ] (h : u.Simple) {gaveUp : Nat → Bool} {found : List Violation}
    (queue : u.discharger.queue = []) (closed : u.current.blocks = [])
    (hu : (endFunction gaveUp site).run u = ((found, none), v)) : v.Simple := by
  obtain ⟨c, leaves, turns⟩ := endFunction_ok queue closed hu
  exact turns.simple h.outer (h.capabilities.leaves leaves) h.forks

/-! ## Branches -/

theorem moment (h : u.Simple) (ids : List Nat) : (u.moment ids).Simple where
  bodies := by
    intro b mem
    obtain ⟨id, -, rfl⟩ := List.mem_map.mp mem
    dsimp only
    cases found : u.bodies.find? (·.id == id) with
    | none => exact fun x mem => absurd mem List.not_mem_nil
    | some b => exact (h.bodies b (List.mem_of_find?_eq_some found)).snapshot
  capabilities := h.capabilities.snapshot

theorem finishArm (h : u.Simple) {f : Fork} (simple : f.Simple) :
    (Fork.finishArm f u).Simple where
  entry := simple.entry
  arms := by
    intro m mem
    obtain old | new := List.mem_append.mp mem
    · exact simple.arms m old
    · rw [List.mem_singleton.mp new]
      exact h.moment _

theorem meeting {f : Fork} (h : f.Simple) : ∀ m ∈ meeting f, m.Simple := by
  intro m mem
  simp only [CompilationUnit.meeting] at mem
  split at mem
  · obtain arm | entry := List.mem_append.mp mem
    · exact h.arms m arm
    · rw [List.mem_singleton.mp entry]
      exact h.entry
  · exact h.arms m mem

theorem beginBranch (h : u.Simple) (hu : beginBranch.perform u = (.ok x, v)) : v.Simple := by
  rw [beginBranch_ok hu]
  refine ⟨h.bodies, h.capabilities.enterBranch, List.forall_mem_cons.mpr ⟨⟨?_, ?_⟩, h.forks⟩⟩
  · exact h.moment _
  · exact fun m mem => absurd mem List.not_mem_nil

theorem rewindBody {m : Moment} (simple : m.Simple) {b : Body} (idle : b.tracker.Idle) :
    (rewindBody m b).tracker.Idle := by
  simp only [CompilationUnit.rewindBody]
  split
  next s look => exact idle.restore (simple.bodies _ (Cells.mem_of_lookup look))
  next => exact idle

theorem joinBody {arms : List Moment} (simple : ∀ m ∈ arms, m.Simple) {b : Body}
    (idle : b.tracker.Idle) : (joinBody site arms b).tracker.Idle := by
  refine idle.merge site fun s ms => ?_
  obtain ⟨m, mm, look⟩ := List.mem_filterMap.mp ms
  exact (simple m mm).bodies _ (Cells.mem_of_lookup look)

theorem nextArm (h : u.Simple) (hu : nextArm.perform u = (.ok x, v)) : v.Simple := by
  obtain ⟨f, rest, c, forks, next, turns⟩ := nextArm_ok hu
  obtain ⟨first, others⟩ := List.forall_mem_cons.mp (forks ▸ h.forks)
  refine turns.simple (fun b mem => ?_)
    ((h.capabilities.restore first.entry.capabilities).nextArm next)
    (List.forall_mem_cons.mpr ⟨h.finishArm first, others⟩)
  obtain ⟨b, mb, rfl⟩ := List.mem_map.mp mem
  exact rewindBody first.entry (h.bodies b mb)

theorem endBranch (h : u.Simple) (hu : (endBranch site).perform u = (.ok x, v)) : v.Simple := by
  obtain ⟨f, rest, c, forks, left, turns⟩ := endBranch_ok hu
  obtain ⟨first, others⟩ := List.forall_mem_cons.mp (forks ▸ h.forks)
  have meets := meeting (h.finishArm first)
  refine turns.simple (fun b mem => ?_) ?_ others
  · obtain ⟨b, mb, rfl⟩ := List.mem_map.mp mem
    exact joinBody meets (h.bodies b mb)
  · refine (h.capabilities.exitBranch left).merge fun s ms => ?_
    obtain ⟨m, mm, rfl⟩ := List.mem_map.mp ms
    exact (meets m mm).capabilities

end Simple

end CompilationUnit

end ResourceSafety
