import ResourceSafety.Proofs.Checker.Posture
import ResourceSafety.Trace.Replay

/-!
# A replay leaves nothing open

Functions, blocks, threads and branches nest in a trace to any depth.  Each of them is opened by
one request and closed by another, and what is in between leaves the posture of the unit as it
found it.  So the closing request finds its own opening on top of every stack
(`Step.stands`, by induction on the trace).

A whole replay therefore never runs into a closing without an opening, and one without a fault
ends with nothing open but the root of the unit.
-/

namespace ResourceSafety

open Logic (Action MildSolver Solver)
open Logic.Action (Fares Rests)

namespace Replay

variable {σ α : Type} {r : Replay σ} {Q : CompilationUnit σ → Prop}

theorem fares_request {a : Action (CompilationUnit σ) α} (h : Fares (fun _ v => Q v) a r.unit) :
    Fares (fun _ q => Q q.unit) (request a) r := by
  refine .get_bind ?_
  unfold Fares at h
  rcases run : a.perform r.unit with ⟨fault | x, v⟩
  · rw [run] at h
    exact .modify_bind (.throw h)
  · rw [run] at h
    exact .modify_bind (.pure h)

theorem fares_closing {a : StateM (CompilationUnit σ) Sweep} (h : Rests Q a r.unit) :
    Fares (fun _ q => Q q.unit) (closing a) r := by
  refine .get_bind ?_
  unfold Rests at h
  rcases run : a.run r.unit with ⟨⟨found, fault⟩, v⟩
  rw [run] at h
  cases fault with
  | some fault => exact .modify_bind (.throw h)
  | none => exact .modify_bind (.pure h)

/-- The place of a step is no blame. -/
theorem fares_located {P : α → Replay σ → Prop} {a : Action (Replay σ) α} (h : Fares P a r)
    (place : String) : Fares P (located place a) r :=
  .tryCatch h fun _ _ mild => .throw (mild.within place)

theorem spares_span (file text : String) : Fault.Spares (span file text) := by
  unfold span
  split
  · exact Fault.spares_ok _
  · cases Span.ofCompact file text with
    | error cause => exact Fault.spares_error (Fault.mild_of_no_code rfl)
    | ok site => exact Fault.spares_ok site

theorem spares_endSpan (file : String) (site : Span) (text : String) :
    Fault.Spares (endSpan file site text) := by
  unfold endSpan
  split
  · exact Fault.spares_ok _
  · exact spares_span file text

theorem fares_symbol (handle : String) : Fares (fun _ q => q = r) (symbol handle) r := by
  refine .get_bind ?_
  split
  · exact .pure rfl
  · exact .throw (Fault.mild_of_no_code rfl)

theorem fares_subject (about : RangeSubject) : Fares (fun _ q => q = r) (subject about) r := by
  cases about with
  | literal v => exact .pure rfl
  | handle name => exact (fares_symbol name).bind fun _ _ same => .pure same

end Replay

open CompilationUnit (Stands serves_iff_fares serves_iff_rests)
open Replay

section

variable {σ : Type} [Solver σ] [MildSolver σ] {r : Replay σ} {p : Posture}

/-- A request of the replay that closes what is open. -/
theorem Replay.fares_served {α : Type} {a : Action (CompilationUnit σ) α} (h : r.unit.Stands p)
    (asked : CompilationUnit.Request) (allowed : p.Allows asked)
    (serve : r.unit.serve asked = r.unit.outcome a) :
    Fares (fun _ q => q.unit.Stands (p.after asked)) (request a) r :=
  fares_request ((serves_iff_fares serve).mp (h.serves allowed))

/-- A request at a place that is read first. -/
theorem Replay.fares_opening (h : r.unit.Stands p) {t : Posture}
    {a : Span → Action (CompilationUnit σ) Unit} (asked : Span → CompilationUnit.Request)
    (after : ∀ start, p.Allows (asked start) ∧ p.after (asked start) = t)
    (serve : ∀ start, r.unit.serve (asked start) = r.unit.outcome (a start))
    (file place site : String) :
    Fares (fun _ q => q.unit.Stands t) (located place do
      let start ← MonadExcept.ofExcept (span file site)
      request (a start)
      return start) r := by
  refine fares_located (.answer_bind (spares_span file site) fun start _ => ?_) place
  obtain ⟨allowed, rfl⟩ := after start
  exact (fares_served h (asked start) allowed (serve start)).bind fun _ _ opened => .pure opened

/-- A closing at a place that is read first. -/
theorem Replay.fares_ending (h : r.unit.Stands p) {t : Posture}
    {a : Span → StateM (CompilationUnit σ) Sweep} (asked : Span → CompilationUnit.Request)
    (after : ∀ last, p.Allows (asked last) ∧ p.after (asked last) = t)
    (serve : ∀ last, r.unit.serve (asked last) = r.unit.swept (a last))
    (file place stop : String) (start : Span) :
    Fares (fun _ q => q.unit.Stands t) (located place do
      let last ← MonadExcept.ofExcept (endSpan file start stop)
      closing (a last)) r := by
  refine fares_located (.answer_bind (spares_endSpan file start stop) fun last _ => ?_) place
  obtain ⟨allowed, rfl⟩ := after last
  exact fares_closing ((serves_iff_rests (serve last)).mp (h.serves allowed))

theorem Act.stands (what : Act) (cancelled : Bool) (site : Span) (h : r.unit.Stands p) :
    Fares (fun _ q => q.unit.Stands p) (what.perform cancelled site) r := by
  cases what <;> rw [perform]
  case declare name type =>
    have mild : Fault.Spares ((Ty.ofString type).mapError (.badType type)) := by
      cases Ty.ofString type with
      | error cause => exact Fault.spares_error (Fault.mild_of_no_code rfl)
      | ok t => exact Fault.spares_ok t
    exact .answer_bind mild fun t _ =>
      .map (fares_served h (.declare name (some t) site) trivial rfl)
  case access kind name => exact .map (fares_served h (.access kind name site) trivial rfl)
  case release name => exact fares_served h (.release name site) trivial rfl
  case use name => exact .map (fares_served h (.use name site) trivial rfl)
  case consume name => exact .map (fares_served h (.consume name site) trivial rfl)
  case share name => exact .map (fares_served h (.share name site) trivial rfl)
  case sync => exact fares_served h (.sync site) trivial rfl
  case fresh handle =>
    exact (fares_served h (.freshHandle cancelled handle) trivial rfl).bind fun _ _ stands =>
      .modify stands
  case assertShape handle dims =>
    refine (fares_symbol handle).bind fun s q same => ?_
    exact fares_served (same ▸ h) (.assertShape cancelled s dims) trivial rfl
  case proveRange about lo hi =>
    refine (fares_subject about).bind fun subject q same => ?_
    exact fares_served (same ▸ h) (.require _) trivial rfl
  case proveShape handle dims =>
    refine (fares_symbol handle).bind fun s q same => ?_
    exact fares_served (same ▸ h) (.require _) trivial rfl

/-! ## Steps -/

variable (gaveUp : Juncture → Bool) (file : String)

set_option linter.unusedSectionVars false in
mutual

/-- A step leaves the posture of the unit as it found it. -/
theorem Step.stands : ∀ (s : Step) (place : String) {p : Posture} {r : Replay σ},
    r.unit.Stands p → Fares (fun _ q => q.unit.Stands p) (s.replay gaveUp file place) r
  | .act what site, place, p, r, h => by
    rw [replay]
    exact fares_located (.answer_bind (spares_span file site) fun start _ =>
      what.stands _ start h) place
  | .function name site stop body, place, p, r, h => by
    rw [replay]
    obtain ⟨rest, scopes⟩ := h.exists_page
    refine (fares_opening h (t := { p with scopes := 1 :: p.scopes })
      (.beginFunction name) (fun _ => ⟨trivial, rfl⟩) (fun _ => rfl) file place site).bind
        fun start _ opened => ?_
    refine (standsAll body _ 0 opened).bind fun _ _ walked => ?_
    exact fares_ending walked (.endFunction (gaveUp <| .obligation place ·))
      (fun _ => ⟨by simp [Posture.Allows, scopes], rfl⟩) (fun _ => rfl) file place stop start
  | .block site stop body, place, p, r, h => by
    rw [replay]
    obtain ⟨rest, scopes⟩ := h.exists_page
    refine (fares_opening h (t := { p with scopes := p.scopes.modifyHead (· + 1) })
      .enterBlock (fun _ => ⟨trivial, rfl⟩) (fun _ => rfl) file place site).bind
        fun start _ opened => ?_
    refine (standsAll body _ 0 opened).bind fun _ _ walked => ?_
    have same : { p with scopes := (r.unit.current.blocks.length + 1) :: rest } = p := by
      rw [← scopes]
    exact fares_ending walked .exitBlock
      (fun _ => ⟨by simp [Posture.Allows, scopes], by simp [Posture.after, scopes, same]⟩)
      (fun _ => rfl) file place stop start
  | .thread tag site body, place, p, r, h => by
    rw [replay]
    refine .bind (fares_located (.bind (Q := fun _ q => q.unit.Stands p)
      (.map (.answer (spares_span file site) fun _ _ => h)) fun _ _ placed =>
        fares_served placed (.enterThread tag) trivial rfl) place) fun _ _ opened => ?_
    refine (standsAll body _ 0 opened).bind fun _ _ walked => ?_
    refine fares_located (fares_served walked .exitThread ?_ rfl) place
    show 1 < (tag :: p.regions).length
    simp [← h.regions, Capability.Context.regions]
  | .branch site arms, place, p, r, h => by
    rw [replay]
    refine (fares_opening h (t := { p with branches := p.branches + 1 }) (fun _ => .beginBranch)
      (fun _ => ⟨trivial, rfl⟩) (fun _ => rfl) file place site).bind fun start _ opened => ?_
    refine (standsArms arms place 0 (Nat.succ_pos _) opened).bind fun _ _ walked => ?_
    exact fares_located (fares_served walked (.endBranch start) (Nat.succ_pos _) rfl) place

/-- Steps leave the posture of the unit as they found it. -/
theorem Step.standsAll : ∀ (steps : List Step) (list : String) (i : Nat) {p : Posture}
    {r : Replay σ}, r.unit.Stands p →
    Fares (fun _ q => q.unit.Stands p) (replayAll gaveUp file list i steps) r
  | [], list, i, p, r, h => by
    rw [replayAll]
    exact .pure h
  | s :: rest, list, i, p, r, h => by
    rw [replayAll]
    split
    · exact .throw_bind (Fault.mild_of_no_code rfl)
    · exact (stands s _ h).bind fun _ _ walked => standsAll rest list (i + 1) walked

/-- Inside a branch its arms leave the posture of the unit as they found it. -/
theorem Step.standsArms : ∀ (arms : List (List Step)) (place : String) (i : Nat) {p : Posture}
    {r : Replay σ}, 0 < p.branches → r.unit.Stands p →
    Fares (fun _ q => q.unit.Stands p) (replayArms gaveUp file place i arms) r
  | [], place, i, p, r, inside, h => by
    rw [replayArms]
    exact .pure h
  | arm :: rest, place, i, p, r, inside, h => by
    rw [replayArms]
    have walks {s : Replay σ} (stands : s.unit.Stands p) :
        Fares (fun _ q => q.unit.Stands p) (do
          replayAll gaveUp file (armPlace place i) 0 arm
          replayArms gaveUp file place (i + 1) rest) s :=
      (standsAll arm _ 0 stands).bind fun _ _ walked => standsArms rest place (i + 1) inside walked
    split
    · exact (fares_located (fares_served h .nextArm inside rfl) place).bind fun _ _ next => walks next
    · exact walks h

end

end

/-! ## Whole replays -/

namespace CompilationUnit

variable {σ : Type} {u : CompilationUnit σ}

/-- Nothing is open but the root of the unit. -/
structure Balanced (u : CompilationUnit σ) : Prop where
  functions : u.functions = []
  blocks : u.root.blocks = []
  scopes : u.root.tracker.depth = 1
  frames : u.capabilities.depth = 1
  thread : u.capabilities.thread = mainThread
  outerThreads : u.capabilities.outerThreads = []
  forks : u.forks = []
  branches : u.capabilities.branches = []

theorem stands_fresh (name : String) (registry : Registry) (config : CheckerConfig) (run : String)
    {opening : Bool → Except Fault σ} (mild : ∀ cancelled, Fault.Spares (opening cancelled)) :
    (fresh name registry config run opening).Stands .start where
  lockstep := ⟨_, lockstep_fresh name registry config run opening, rfl⟩
  regions := rfl
  forks := rfl
  opens := mild

/-- The posture of a new unit is that of a balanced one. -/
theorem Stands.balanced (h : u.Stands .start) : u.Balanced := by
  obtain ⟨j, lock, scopes⟩ := h.lockstep
  obtain ⟨page, rest, rfl, describes, -⟩ := lock.exists_page
  obtain ⟨single, rfl⟩ : page.scopes.length = 1 ∧ rest = [] := by
    simpa [Posture.start] using scopes
  have functions : u.functions = [] := by
    have pages := lock.pages.length_eq
    simp only [outline, List.length_map, length_functions, List.length_singleton] at pages
    exact List.length_eq_zero_iff.mp (Nat.succ.inj pages).symm
  have root : u.current = u.root := by rw [current, functions]
  have forks : u.forks = [] := List.length_eq_zero_iff.mp h.forks
  have blocks : u.root.blocks = [] := by
    have count := describes.length_scopes
    rw [single] at count
    simpa [Body.outline, root] using count
  obtain ⟨thread, outerThreads⟩ := List.cons.inj h.regions
  refine ⟨functions, blocks, ?_, ?_, thread, outerThreads, forks, ?_⟩
  · have rows := congrArg List.length describes.bindings
    rw [List.length_map, single] at rows
    simpa [Body.outline, root, Ownership.Tracker.cells, Cells.outline, Ownership.Tracker.scopes,
      Ownership.Tracker.depth] using rows
  · rw [Capability.Context.depth, lock.frames, scopeCount]
    simp [bodies, functions, blocks]
  · exact List.length_eq_zero_iff.mp (lock.branches.trans (by rw [forks, List.length_nil]))

end CompilationUnit

/-- A trace is replayed into a new unit, whatever the configuration and the solver, as long as the
solver itself never blames a closing without an opening or a finished unit.  Then no fault does.
Without a fault the unit is left with nothing open but its root. -/
theorem Trace.replay_balanced {σ : Type} [Solver σ] [MildSolver σ] (t : Trace)
    (registry : Registry) (config : CheckerConfig) (run : String)
    {opening : Bool → Except Fault σ} (mild : ∀ cancelled, Fault.Spares (opening cancelled))
    (gaveUp : Juncture → Bool) :
    match (Step.replayAll gaveUp t.unit "steps" 0 t.steps).perform
      { unit := .fresh t.unit registry config run opening } with
    | (.ok (), p) => p.unit.Balanced
    | (.error f, _) => f.code? ≠ some "SCOPE_UNDERFLOW" ∧ f.code? ≠ some "UNIT_FINISHED" := by
  have stands := CompilationUnit.stands_fresh t.unit registry config run mild
  have whole := Step.standsAll gaveUp t.unit t.steps "steps" 0
    (r := { unit := .fresh t.unit registry config run opening }) stands
  unfold Fares at whole
  split
  next p run =>
    rw [run] at whole
    exact whole.balanced
  next f p run =>
    rw [run] at whole
    exact whole

/-- A function with a block, a thread and a branch in it. -/
def nestedTrace : Trace where
  unit := "nested"
  source := ""
  types := []
  steps :=
    [.function "f" "1:1" "9:1"
      [.block "2:1" "" [.act (.declare "x" "int") "3:1"],
       .thread "a" "4:1" [.act .sync "5:1"],
       .branch "6:1" [[.act .sync "7:1"], []]]]

/-- The solvers of the library are mild, and `nestedTrace` is replayed to its end. -/
theorem Trace.replay_balanced_nested :
    let opening := Backend.start Logic.clauseLearning .semantic (fun _ => none) {}
    (∀ cancelled, Fault.Spares (opening cancelled)) ∧
      ∃ p, (Step.replayAll Juncture.never nestedTrace.unit "steps" 0 nestedTrace.steps).perform
        { unit := .fresh nestedTrace.unit .empty {} "" opening } = (.ok (), p) ∧
        p.unit.Balanced := by
  intro opening
  have mild : ∀ cancelled, Fault.Spares (opening cancelled) := Backend.spares_start _ _ _ _
  have balanced := nestedTrace.replay_balanced .empty {} "" mild Juncture.never
  have ends : ((Step.replayAll Juncture.never nestedTrace.unit "steps" 0 nestedTrace.steps).perform
      { unit := .fresh nestedTrace.unit .empty {} "" opening }).1 = .ok () := by
    decide +kernel
  rcases run : (Step.replayAll Juncture.never nestedTrace.unit "steps" 0 nestedTrace.steps).perform
    { unit := .fresh nestedTrace.unit .empty {} "" opening } with ⟨_ | _, p⟩
  · rw [run] at ends
    cases ends
  · rw [run] at balanced
    exact ⟨mild, p, rfl, balanced⟩

end ResourceSafety
