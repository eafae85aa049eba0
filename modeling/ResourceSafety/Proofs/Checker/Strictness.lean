import ResourceSafety.Checker.Report
import ResourceSafety.Proofs.Capability.Strictness
import ResourceSafety.Proofs.Checker.Effect
import ResourceSafety.Proofs.Logic.Alike

/-!
# Strict units

The unit of a strict check is the one of a check that is not strict, findings apart (`Twins`).  Of
the findings the two keep account as they go.

* What the check that is not strict found was found by the strict one too, or is a race of a
  closed frame, which the strict one finds at the end.
* What the strict check found was found by the other one too, or is a race between accesses made
  before a capability was shared.
-/

namespace ResourceSafety.CompilationUnit

open Logic (Action Solver)
open Logic.Action (Alike)

variable {σ α : Type} {u v s : CompilationUnit σ} {W : List Violation}

/-- The unit in a strict check, with the given findings. -/
def strictly (u : CompilationUnit σ) (found : List Violation) : CompilationUnit σ :=
  { u with capabilities := u.capabilities.strictly, violations := found }

/-- The strict check found `W` where the other one has come to `u`. -/
structure Twin (u : CompilationUnit σ) (W : List Violation) : Prop where
  lax : u.capabilities.strict = false
  told : u.capabilities.Told
  pledged : ∀ f ∈ u.forks, ∀ m ∈ f.entry :: f.arms, u.capabilities.Pledged m.capabilities
  reported : ∀ v ∈ u.violations, (∃ w ∈ W, w.key = v.key) ∨ u.capabilities.Closes v
  known : ∀ w ∈ W, (∃ v ∈ u.violations, v.key = w.key) ∨ u.capabilities.Suspects w

/-- The second unit is the first one in a strict check. -/
def Twins (u s : CompilationUnit σ) : Prop := ∃ W, s = u.strictly W ∧ u.Twin W

/-- Both units are closed with the same fault or without one. -/
def SweptAlike (a : StateM (CompilationUnit σ) Sweep) (u s : CompilationUnit σ) : Prop :=
  ∃ found found' fault u' s', a.run u = ((found, fault), u') ∧ a.run s = ((found', fault), s') ∧
    Twins u' s'

namespace Twin

theorem twins (h : u.Twin W) : Twins u (u.strictly W) := ⟨W, rfl, h⟩

theorem turn {bodies : List Body} {c : Capability.Context} (h : u.Twin W)
    (turns : u.Turns v bodies c []) (e : u.capabilities.Evolves c) : v.Twin W where
  lax := turns.capabilities ▸ e.strict.trans h.lax
  told := turns.capabilities ▸ h.told.evolve e
  pledged f mem m mm := by
    rw [turns.forks] at mem
    exact turns.capabilities ▸ (h.pledged f mem m mm).evolve e
  reported w mem := by
    rw [turns.findings] at mem
    exact turns.capabilities ▸ (h.reported w mem).imp_right (·.evolve h.told e)
  known w mem := by
    rw [turns.findings, turns.capabilities]
    exact (h.known w mem).imp_right (·.evolve h.told e)

/-- The capabilities alone are changed. -/
theorem evolve {c : Capability.Context} (h : u.Twin W) (e : u.capabilities.Evolves c) :
    Twin { u with capabilities := c } W :=
  h.turn (turns_capabilities u c) e

theorem changeCurrent (h : u.Twin W) (f : Body → Body) : (u.changeCurrent f).Twin W :=
  h.turn (turns_changeCurrent (bodies_eq_cons u) f) (.refl _)

theorem changeBody (h : u.Twin W) (id : Nat) (f : Body → Body) : (u.changeBody id f).Twin W :=
  h.turn (turns_changeBody u id f) (.refl _)

end Twin

theorem changeCurrent_strictly (u : CompilationUnit σ) (W : List Violation) (f : Body → Body) :
    (u.strictly W).changeCurrent f = (u.changeCurrent f).strictly W := by
  have same : (u.strictly W).functions = u.functions := rfl
  simp only [changeCurrent, same]
  cases u.functions <;> rfl

namespace Twin

/-! ## Declarations and accesses -/

theorem live_bind {γ δ : Type} {Q : γ → δ → Prop}
    {R : CompilationUnit σ → CompilationUnit σ → Prop}
    {k : Unit → Action (CompilationUnit σ) γ} {l : Unit → Action (CompilationUnit σ) δ}
    (next : Alike Q R (k ()) (l ()) u (u.strictly W)) :
    Alike Q R (requireLive >>= k) (requireLive >>= l) u (u.strictly W) := by
  have first : Alike (fun _ _ => True) (fun u' s' => u' = u ∧ s' = u.strictly W) requireLive
      requireLive u (u.strictly W) := by
    refine .get_bind ?_
    have same : (u.strictly W).finished = u.finished := rfl
    rw [same]
    cases u.finished with
    | true => exact .throw _ _
    | false => exact .pure trivial ⟨rfl, rfl⟩
  exact first.bind fun _ _ _ _ _ ⟨hu, hs⟩ => hu ▸ hs ▸ next

section

variable {f : Capability.Context → Except Fault Capability.Context}

/-- A request to the context that does the same in a strict one. -/
theorem alike_onCapabilities
    (strict : f u.capabilities.strictly = (f u.capabilities).map .strictly) :
    Alike (fun _ _ => True) (fun u' s' => ∃ c, f u.capabilities = .ok c ∧
      u' = { u with capabilities := c } ∧ s' = { u with capabilities := c }.strictly W)
      (onCapabilities f) (onCapabilities f) u (u.strictly W) := by
  refine .get_bind ?_
  have same : (u.strictly W).capabilities = u.capabilities.strictly := rfl
  rw [same, strict]
  cases f u.capabilities with
  | error fault => exact .inl ⟨_, _, _, _, rfl, rfl⟩
  | ok c => exact .inr ⟨_, _, _, _, rfl, rfl, trivial, c, rfl, rfl, rfl⟩

theorem onCapabilities (h : u.Twin W)
    (strict : f u.capabilities.strictly = (f u.capabilities).map .strictly)
    (evolves : ∀ c, f u.capabilities = .ok c → u.capabilities.Evolves c) :
    Alike (fun _ _ => True) Twins (onCapabilities f) (onCapabilities f) u (u.strictly W) :=
  (alike_onCapabilities strict).mono (fun _ _ => id) fun _ _ ⟨c, answer, hu, hs⟩ =>
    ⟨W, hs.trans (congrArg (strictly · W) hu.symm), hu ▸ h.evolve (evolves c answer)⟩

theorem onCapabilities_bind {γ δ : Type} {Q : γ → δ → Prop}
    {R : CompilationUnit σ → CompilationUnit σ → Prop}
    {k : Unit → Action (CompilationUnit σ) γ} {l : Unit → Action (CompilationUnit σ) δ}
    (strict : f u.capabilities.strictly = (f u.capabilities).map .strictly)
    (next : ∀ c, f u.capabilities = .ok c →
      Alike Q R (k ()) (l ()) { u with capabilities := c }
        ({ u with capabilities := c }.strictly W)) :
    Alike Q R (CompilationUnit.onCapabilities f >>= k) (CompilationUnit.onCapabilities f >>= l) u
      (u.strictly W) :=
  (alike_onCapabilities strict).bind fun _ _ _ _ _ ⟨c, answer, hu, hs⟩ => hu ▸ hs ▸ next c answer

end

theorem declare (h : u.Twin W) (name : String) (type : Option Ty) (site : Span) :
    Alike (fun _ _ => True) Twins (declare name type site) (declare name type site) u
      (u.strictly W) := by
  refine live_bind (.get_bind ?_)
  have same : (u.strictly W).current = u.current := rfl
  simp only [same]
  split
  · exact .inl ⟨_, _, _, _, rfl, rfl⟩
  · refine .answer_bind fun tracker _ => .modify_bind ?_
    rw [changeCurrent_strictly]
    replace h := h.changeCurrent ({ · with tracker })
    have named : ∀ (d : Declared) {u s : CompilationUnit σ}, Twins u s →
        Alike (fun _ _ => True) Twins (do modify (·.changeCurrent (·.addName d)); return d)
          (do modify (·.changeCurrent (·.addName d)); return d) u s := by
      rintro d u s ⟨W, rfl, h⟩
      refine .modify_bind (.pure trivial ?_)
      rw [changeCurrent_strictly]
      exact (h.changeCurrent _).twins
    have same : (u.strictly W).registry = u.registry := rfl
    simp only [same]
    split
    next kind _ =>
      exact onCapabilities_bind (Capability.Context.define_strictly _ name kind site)
        fun c ran => named _ (h.evolve (.define ran)).twins
    next => exact named _ h.twins

/-- An accepted access is remarked in the history of the capability. -/
theorem remark (h : u.Twin W) (d : Declared) (a : Ownership.Access) (site : Span) :
    Alike (fun _ _ => True) Twins (remark d a site) (remark d a site) u (u.strictly W) := by
  simp only [CompilationUnit.remark]
  split
  next kind some_ =>
    split
    · refine h.onCapabilities (Capability.Context.remark_strictly _ d.name kind site) fun c ran =>
        .remark h.told.numbered ?_ ran
      cases a <;> cases some_ <;> rfl
    · exact .pure trivial h.twins
  next => exact .pure trivial h.twins

/-- Findings of the same keys are collected, and races that the other check need not find. -/
theorem collectAll (h : u.Twin W) (found found' : List Violation)
    (reported : ∀ v ∈ found, v ∈ found' ∨ u.capabilities.Closes v)
    (known : ∀ w ∈ found', w ∈ found ∨ u.capabilities.Suspects w) :
    Twins (u.collectAll found) ((u.strictly W).collectAll found') := by
  have turns := turns_collectAll u found
  refine ⟨((u.strictly W).collectAll found').violations, ?_, ?_⟩
  · rw [collectAll_eq u found]
    exact collectAll_eq (u.strictly W) found'
  refine ⟨turns.capabilities ▸ h.lax, turns.capabilities ▸ h.told, ?_, fun v mem => ?_,
    fun w mem => ?_⟩
  · rw [turns.capabilities, turns.forks]
    exact h.pledged
  · rw [turns.capabilities, exists_key_collectAll]
    obtain old | new := mem_collectAll mem
    · exact (h.reported v old).imp_left .inl
    · exact (reported v new).imp_left fun mem => .inr ⟨v, mem, rfl⟩
  · rw [turns.capabilities, exists_key_collectAll]
    obtain old | new := mem_collectAll mem
    · exact (h.known w old).imp_left .inl
    · exact (known w new).imp_left fun mem => .inr ⟨w, mem, rfl⟩

/-- The same finding is collected. -/
theorem collect (h : u.Twin W) (v : Violation) : Twins (u.collect v) ((u.strictly W).collect v) :=
  h.collectAll [v] [v] (fun _ => .inl) fun _ => .inl

theorem access (h : u.Twin W) (a : Ownership.Access) (name : String) (site : Span) :
    Alike (fun _ _ => True) Twins (access a name site) (access a name site) u (u.strictly W) := by
  refine live_bind (.get_bind ?_)
  have same : (u.strictly W).locate name = u.locate name := rfl
  rw [same]
  refine .answer_bind fun (body, d) _ => .answer_bind fun (v, tracker) _ => .modify_bind ?_
  have changed : (u.strictly W).changeBody body.id ({ · with tracker }) =
      (u.changeBody body.id ({ · with tracker })).strictly W := rfl
  rw [changed]
  replace h := h.changeBody body.id ({ · with tracker })
  cases v with
  | some v => exact .modify_bind (.pure trivial (h.collect v))
  | none => exact (h.remark d a site).bind fun _ _ _ _ _ => .pure trivial

theorem release (h : u.Twin W) (name : String) (site : Span) :
    Alike (fun _ _ => True) Twins (release name site) (release name site) u (u.strictly W) := by
  refine live_bind (.get_bind ?_)
  have same : (u.strictly W).locate name = u.locate name := rfl
  rw [same]
  refine .answer_bind fun (body, d) _ => .answer_bind fun tracker _ => .modify ?_
  exact (h.changeBody body.id ({ · with tracker })).twins

/-- An access to a capability may be answered with a race in the strict check. -/
theorem capabilityAccess (h : u.Twin W) 
    {op : Capability.Context → String → Span → Except Fault (Option Violation × Capability.Context)}
    (heightens : Capability.Context.Heightens op) (name : String) (site : Span) :
    Alike (fun _ _ => True) Twins (capabilityAccess op name site) (capabilityAccess op name site) u
      (u.strictly W) := by
  refine live_bind (.get_bind ?_)
  have same : (u.strictly W).locate name = u.locate name := rfl
  rw [same]
  refine .answer_bind fun (body, d) _ => ?_
  dsimp only
  split
  · exact .pure trivial h.twins
  · refine .get_bind ?_
    have caps : (u.strictly W).capabilities = u.capabilities.strictly := rfl
    rw [caps]
    obtain ⟨fault, answer, answer'⟩ | ⟨w, w', c, answer, answer', evolves, heightened⟩ :=
      heightens name site h.told h.lax
    · rw [answer, answer']
      exact .inl ⟨_, _, _, _, rfl, rfl⟩
    · rw [answer, answer']
      refine .answers_bind (.modify_bind ?_)
      replace h := h.evolve evolves
      obtain rfl | ⟨rfl, race, rfl, suspects⟩ := heightened
      · cases w' with
        | some v => exact .modify_bind (.pure trivial (h.collect v))
        | none => exact .pure trivial h.twins
      · refine .inr ⟨_, _, _, _, rfl, rfl, trivial, h.collectAll [] [race] nofun fun w mem => ?_⟩
        exact .inr (List.mem_singleton.mp mem ▸ suspects)

/-! ## Threads and synchronization -/

theorem enterThread (h : u.Twin W) (tag : ThreadTag) :
    Alike (fun _ _ => True) Twins (enterThread tag) (enterThread tag) u (u.strictly W) :=
  live_bind (.modify (h.evolve (.enterThread _ tag)).twins)

theorem exitThread (h : u.Twin W) :
    Alike (fun _ _ => True) Twins exitThread exitThread u (u.strictly W) :=
  live_bind (h.onCapabilities (Capability.Context.exitThread_strictly _) fun _ => .exitThread)

theorem sync (h : u.Twin W) (site : Span) :
    Alike (fun _ _ => True) Twins (sync site) (sync site) u (u.strictly W) :=
  live_bind (.modify (h.evolve (.sync _ site)).twins)

/-! ## Obligations -/

/-- A request to the discharger, which is the same in both units. -/
theorem onDischarger {α : Type} (h : u.Twin W) (a : Action (Discharger σ) α) :
    Alike Eq Twins (onDischarger a) (onDischarger a) u (u.strictly W) := by
  refine .get_bind ?_
  have same : (u.strictly W).discharger = u.discharger := rfl
  rw [same]
  rcases a.perform u.discharger with ⟨answer, d⟩
  refine .modify_bind ?_
  have twins : Twins { u with discharger := d } ({ u with discharger := d }.strictly W) :=
    ⟨W, rfl, h.lax, h.told, h.pledged, h.reported, h.known⟩
  cases answer with
  | error fault => exact .inl ⟨_, _, _, _, rfl, rfl⟩
  | ok x => exact .inr ⟨_, _, _, _, rfl, rfl, rfl, twins⟩

theorem require [Solver σ] (h : u.Twin W) (o : Obligation) :
    Alike Eq Twins (require o) (require o) u (u.strictly W) :=
  live_bind (h.onDischarger _)

theorem freshHandle [Solver σ] (h : u.Twin W) (cancelled : Bool) (text : String) :
    Alike Eq Twins (freshHandle cancelled text) (freshHandle cancelled text) u (u.strictly W) :=
  live_bind (h.onDischarger _)

theorem assertShape [Solver σ] (h : u.Twin W) (cancelled : Bool) (symbol : String)
    (dims : List UInt64) :
    Alike Eq Twins (assertShape cancelled symbol dims) (assertShape cancelled symbol dims) u
      (u.strictly W) :=
  live_bind (h.onDischarger _)

/-! ## Blocks, functions and branches -/

theorem enterBlock (h : u.Twin W) (site : Span) :
    Alike (fun _ _ => True) Twins (enterBlock site) (enterBlock site) u (u.strictly W) := by
  refine live_bind (.modify ⟨W, ?_, ?_⟩)
  · rw [changeCurrent_strictly]
    rfl
  · have first := turns_changeCurrent (bodies_eq_cons u) (enterBody site)
    have second := turns_capabilities (u.changeCurrent (enterBody site)) u.capabilities.enter
    exact h.turn (first.trans second) (.enter _)

theorem beginFunction (h : u.Twin W) (name : String) (site : Span) :
    Alike (fun _ _ => True) Twins (beginFunction name site) (beginFunction name site) u
      (u.strictly W) := by
  have entered := h.evolve (.enter _)
  exact live_bind (.modify ⟨W, rfl, entered.lax, entered.told, entered.pledged, entered.reported,
    entered.known⟩)

/-- The open branches are changed. -/
theorem branches (h : u.Twin W) (forks : List Fork)
    (pledged : ∀ f ∈ forks, ∀ m ∈ f.entry :: f.arms, u.capabilities.Pledged m.capabilities) :
    Twin { u with forks } W :=
  ⟨h.lax, h.told, pledged, h.reported, h.known⟩

theorem pledged_finishArm (h : u.Twin W) {f : Fork} (mem : f ∈ u.forks) :
    ∀ m ∈ (Fork.finishArm f u).entry :: (Fork.finishArm f u).arms,
      u.capabilities.Pledged m.capabilities := by
  intro m mm
  obtain rfl | mm := List.mem_cons.mp mm
  · exact h.pledged f mem _ List.mem_cons_self
  obtain old | new := List.mem_append.mp mm
  · exact h.pledged f mem m (List.mem_cons_of_mem _ old)
  · rw [List.mem_singleton.mp new]
    exact u.capabilities.pledged_snapshot

theorem beginBranch (h : u.Twin W) :
    Alike (fun _ _ => True) Twins beginBranch beginBranch u (u.strictly W) := by
  have begun := h.branches ({ entry := u.moment (u.bodies.map (·.id)) } :: u.forks) ?_
  · exact live_bind (.modify (begun.evolve (.enterBranch _)).twins)
  · intro f mem
    obtain rfl | mem := List.mem_cons.mp mem
    · intro m mm
      rw [List.mem_singleton.mp mm]
      exact u.capabilities.pledged_snapshot
    · exact h.pledged f mem

/-- Lifecycles are put back. -/
theorem rewind (h : u.Twin W) {m : Moment} (pledged : u.capabilities.Pledged m.capabilities) :
    (u.rewind m).Twin W :=
  h.turn ⟨bodies_mapBodies u (rewindBody m), rfl, rfl, rfl, rfl, rfl, rfl, rfl⟩
    (.restore h.told.numbered pledged)

theorem nextArm (h : u.Twin W) :
    Alike (fun _ _ => True) Twins nextArm nextArm u (u.strictly W) := by
  refine live_bind (.get_bind ?_)
  have same : (u.strictly W).forks = u.forks := rfl
  rw [same]
  cases forks : u.forks with
  | nil => exact .throw _ _
  | cons f rest =>
    have mem : f ∈ u.forks := forks ▸ List.mem_cons_self
    have finished := h.branches (Fork.finishArm f u :: rest) fun g mg => ?_
    · refine .set_bind ?_
      have rewound := finished.rewind (h.pledged f mem _ List.mem_cons_self)
      exact rewound.onCapabilities (Capability.Context.nextArm_strictly _) fun _ => .nextArm
    · obtain rfl | mg := List.mem_cons.mp mg
      · exact h.pledged_finishArm mem
      · exact h.pledged g (forks ▸ List.mem_cons_of_mem _ mg)

/-- Lifecycles are joined. -/
theorem joinArms (h : u.Twin W) (site : Span) {arms : List Moment}
    (pledged : ∀ m ∈ arms, u.capabilities.Pledged m.capabilities) :
    Twins (u.joinArms site arms) ((u.strictly W).joinArms site arms) := by
  refine ⟨W, ?_, h.turn ⟨bodies_mapBodies u (joinBody site arms), rfl, rfl, rfl, rfl, rfl, rfl, rfl⟩
    (.merge h.told.numbered fun s mem => ?_)⟩
  · have merged := u.capabilities.merge_strictly (arms.map (·.capabilities))
    simp only [CompilationUnit.joinArms]
    exact congrArg (fun c => { u.joinArms site arms with capabilities := c, violations := W }) merged
  · obtain ⟨m, mm, rfl⟩ := List.mem_map.mp mem
    exact pledged m mm

theorem endBranch (h : u.Twin W) (site : Span) :
    Alike (fun _ _ => True) Twins (endBranch site) (endBranch site) u (u.strictly W) := by
  refine live_bind (.get_bind ?_)
  have same : (u.strictly W).forks = u.forks := rfl
  rw [same]
  cases forks : u.forks with
  | nil => exact .throw _ _
  | cons f rest =>
    have mem : f ∈ u.forks := forks ▸ List.mem_cons_self
    have left := h.branches rest fun g mg => h.pledged g (forks ▸ List.mem_cons_of_mem _ mg)
    refine .set_bind ?_
    have exits := Capability.Context.exitBranch_strictly u.capabilities site
    refine onCapabilities_bind (u := { u with forks := rest }) exits fun c ran => ?_
    have evolves : u.capabilities.Evolves c := .exitBranch ran
    refine .modify ((left.evolve evolves).joinArms site fun m mm => ?_)
    -- the arms that meet are among the entry and the ends of the branch
    refine (h.pledged_finishArm mem m ?_).evolve evolves
    split at mm
    · obtain arm | entry := List.mem_append.mp mm
      · exact List.mem_cons_of_mem _ arm
      · exact List.mem_singleton.mp entry ▸ List.mem_cons_self
    · exact List.mem_cons_of_mem _ mm

/-! ## Closings -/

theorem leaveFrame (h : u.Twin W) (site : Span) :
    SweptAlike (leaveFrame site) u (u.strictly W) := by
  simp only [SweptAlike, CompilationUnit.leaveFrame, run_get_bind]
  have same : (u.strictly W).capabilities = u.capabilities.strictly := rfl
  rw [same]
  obtain ⟨fault, left, left'⟩ | ⟨leaks, found, c, left, left', closes⟩ :=
    Capability.Context.exit_strictly h.told.numbered h.lax site
  · rw [left, left']
    exact ⟨_, _, _, _, _, rfl, rfl, h.twins⟩
  · rw [left, left']
    have evolved := h.evolve (.exit left)
    refine ⟨_, _, _, _, _, rfl, rfl, evolved.collectAll (leaks ++ found) leaks (fun v mem => ?_)
      fun w mem => .inl (List.mem_append_left _ mem)⟩
    exact (List.mem_append.mp mem).imp_right (closes v)

theorem closeBlock (h : u.Twin W) (site : Span) :
    SweptAlike (closeBlock site) u (u.strictly W) := by
  simp only [SweptAlike, CompilationUnit.closeBlock, run_get_bind]
  have same : (u.strictly W).current = u.current := rfl
  rw [same]
  cases u.current.blocks with
  | nil => exact ⟨_, _, _, _, _, rfl, rfl, h.twins⟩
  | cons k blocks =>
    cases u.current.tracker.exit with
    | error fault => exact ⟨_, _, _, _, _, rfl, rfl, h.twins⟩
    | ok tracker =>
      dsimp only
      rw [changeCurrent_strictly]
      exact (h.changeCurrent _).leaveFrame site

end Twin

namespace Twins

/-- Two closings, of which the second is left out after a fault. -/
theorem andThen {first second : StateM (CompilationUnit σ) Sweep} (h : SweptAlike first u s)
    (next : ∀ u s, Twins u s → SweptAlike second u s) :
    SweptAlike (Sweep.andThen first second) u s := by
  obtain ⟨found, found', fault, u', s', left, right, twins⟩ := h
  rw [SweptAlike, Sweep.andThen, run_bind_of left, run_bind_of right]
  cases fault with
  | some fault => exact ⟨_, _, _, _, _, rfl, rfl, twins⟩
  | none =>
    obtain ⟨more, more', fault, v, t, left, right, twins⟩ := next u' s' twins
    dsimp only
    rw [run_bind_of left, run_bind_of right]
    exact ⟨_, _, _, _, _, rfl, rfl, twins⟩

theorem closeBlocks (site : Span) (blocks : List Block) (h : Twins u s) :
    SweptAlike (closeBlocks site blocks) u s := by
  induction blocks generalizing u s with
  | nil => exact ⟨_, _, _, _, _, rfl, rfl, h⟩
  | cons k rest ih =>
    obtain ⟨W, rfl, twin⟩ := h
    exact andThen (twin.closeBlock site) fun u s => ih

theorem leaveFrame (site : Span) (h : Twins u s) : SweptAlike (leaveFrame site) u s := by
  obtain ⟨W, rfl, twin⟩ := h
  exact twin.leaveFrame site

theorem dropFunction (site : Span) (h : Twins u s) : SweptAlike (dropFunction site) u s := by
  obtain ⟨W, rfl, twin⟩ := h
  refine ⟨_, _, _, _, _, rfl, rfl, ?_⟩
  have same : (u.strictly W).functions = u.functions := rfl
  dsimp only
  rw [same]
  cases u.functions with
  | nil => exact twin.twins
  | cons f rest => exact ⟨W, rfl, twin.lax, twin.told, twin.pledged, twin.reported, twin.known⟩

theorem exitBlock (site : Span) (h : Twins u s) : SweptAlike (exitBlock site) u s := by
  obtain ⟨W, rfl, twin⟩ := h
  simp only [SweptAlike, CompilationUnit.exitBlock, run_get_bind]
  have same : (u.strictly W).finished = u.finished := rfl
  rw [same]
  split
  · exact ⟨_, _, _, _, _, rfl, rfl, twin.twins⟩
  · exact twin.closeBlock site

variable [Solver σ]

theorem flushQueue (gaveUp : Nat → Bool) (h : Twins u s) : SweptAlike (flushQueue gaveUp) u s := by
  obtain ⟨W, rfl, twin⟩ := h
  simp only [SweptAlike, CompilationUnit.flushQueue, run_get_bind]
  have same : (u.strictly W).discharger = u.discharger := rfl
  rw [same]
  rcases (Discharger.flush gaveUp).run u.discharger with ⟨⟨found, fault⟩, d⟩
  have flushed : Twin { u with discharger := d } W :=
    ⟨twin.lax, twin.told, twin.pledged, twin.reported, twin.known⟩
  exact ⟨_, _, _, _, _, rfl, rfl, flushed.collectAll found found (fun _ => .inl) fun _ => .inl⟩

theorem endFunction (gaveUp : Nat → Bool) (site : Span) (h : Twins u s) :
    SweptAlike (endFunction gaveUp site) u s := by
  obtain ⟨W, rfl, twin⟩ := h
  simp only [SweptAlike, CompilationUnit.endFunction, run_get_bind]
  have same : (u.strictly W).finished = u.finished := rfl
  have functions : (u.strictly W).functions = u.functions := rfl
  rw [same, functions]
  split
  · exact ⟨_, _, _, _, _, rfl, rfl, twin.twins⟩
  · cases u.functions with
    | nil => exact ⟨_, _, _, _, _, rfl, rfl, twin.twins⟩
    | cons f rest =>
      exact andThen (twin.twins.flushQueue gaveUp) fun _ _ h =>
        andThen (h.closeBlocks site f.blocks) fun _ _ h =>
          andThen (h.leaveFrame site) fun _ _ h => h.dropFunction site

/-! ## The end -/

theorem closeScopes (gaveUp : Nat → Nat → Bool) (fuel : Nat) (h : Twins u s) :
    ∃ fault u' s', (closeScopes gaveUp fuel).run u = (fault, u') ∧
      (closeScopes gaveUp fuel).run s = (fault, s') ∧ Twins u' s' := by
  induction fuel generalizing u s with
  | zero =>
    rw [CompilationUnit.closeScopes]
    exact ⟨_, _, _, rfl, rfl, h⟩
  | succ fuel ih =>
    have next : ∀ {a : StateM (CompilationUnit σ) Sweep}, SweptAlike a u s →
        ∃ fault u' s', (a >>= closeScopes.next gaveUp fuel).run u = (fault, u') ∧
          (a >>= closeScopes.next gaveUp fuel).run s = (fault, s') ∧ Twins u' s' := by
      rintro a ⟨found, found', fault, u', s', left, right, twins⟩
      rw [run_bind_of left, run_bind_of right, closeScopes.next, closeScopes.next]
      cases fault with
      | some fault => exact ⟨_, _, _, rfl, rfl, twins⟩
      | none => exact ih twins
    obtain ⟨W, rfl, twin⟩ := h
    simp only [CompilationUnit.closeScopes, run_get_bind]
    have current : (u.strictly W).current = u.current := rfl
    have functions : (u.strictly W).functions = u.functions := rfl
    rw [current, functions]
    split
    · exact next (twin.closeBlock _)
    · exact next (twin.twins.endFunction _ _)
    · exact ⟨_, _, _, rfl, rfl, twin.twins⟩

end Twins

end ResourceSafety.CompilationUnit
