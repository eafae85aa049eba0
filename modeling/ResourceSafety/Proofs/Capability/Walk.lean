import ResourceSafety.Proofs.Capability.Access

/-!
# Walks

A *walk* is a run of requests to a capability context, together with a journal
of what the histories of the context do not show: which markers come from a
synchronization request, which ones stand at the end of a branch, and which arms
were begun.

An execution takes one arm of each branch.  A branch with a single arm may also
be passed over.  A `Choice` says which arm is taken, and a record is made by the
execution when its path only has arms that are taken.

A request does one of three things to the histories: it keeps them, it adds a
record to some of them, or it adds a marker to some of them.  The lemmas of the
second half say which, and nothing later looks into the requests again.
-/

namespace ResourceSafety.Capability

/-- A request to a context.  Notes are about accesses, so they are never
markers. -/
inductive Request
  | enter
  | exit (site : Span)
  | enterThread (tag : ThreadTag)
  | exitThread
  | enterBranch
  | nextArm
  | exitBranch (site : Span)
  | define (name : String) (kind : CapabilityKind) (site : Span)
  | use (name : String) (site : Span)
  | consume (name : String) (site : Span)
  | share (name : String) (site : Span)
  | note (name : String) (kind : AccessKind) (access : kind ≠ .sync) (site : Span)
  | sync (site : Span)

/-- The request is neither about branches nor a synchronization point. -/
def Request.isPlain : Request → Bool
  | enterBranch | nextArm | exitBranch _ | sync _ => false
  | _ => true

namespace Context

/-- The context after a request.  It stays as it was when the request is
refused. -/
def keepOr (c : Context) : Except Fault Context → Context
  | .ok c' => c'
  | .error _ => c

/-- The context after a request. -/
def step (c : Context) : Request → Context
  | .enter => c.enter
  | .exit site => c.keepOr ((c.exit site).map Prod.snd)
  | .enterThread tag => c.enterThread tag
  | .exitThread => c.keepOr c.exitThread
  | .enterBranch => c.enterBranch
  | .nextArm => c.keepOr c.nextArm
  | .exitBranch site => c.keepOr (c.exitBranch site)
  | .define name kind site => c.keepOr (c.define name kind site)
  | .use name site => c.keepOr ((c.use name site).map Prod.snd)
  | .consume name site => c.keepOr ((c.consume name site).map Prod.snd)
  | .share name site => c.keepOr ((c.share name site).map Prod.snd)
  | .note name kind _ site => c.keepOr (c.remark name kind site)
  | .sync site => c.sync site

/-- All records of a context. -/
def records (c : Context) : List AccessRecord := c.table.flatMap (·.history)

end Context

/-- The end of the branch is a synchronization point: it has several arms, and
each of them synchronized. -/
def OpenBranch.synchronizes (b : OpenBranch) : Bool :=
  let b := Context.OpenBranch.finishArm b
  0 < b.here.arm && b.synced == b.here.arm + 1

/-! ## The journal -/

/-- A context that was walked, with the journal of the walk. -/
structure Walk where
  /-- The context. -/
  context : Context
  /-- The markers of the synchronization requests. -/
  calls : List AccessRecord := []
  /-- The branches whose end was a synchronization point, with its marker. -/
  joins : List (Nat × AccessRecord) := []
  /-- The arms that were begun. -/
  arms : List ArmRef := []

namespace Walk

/-- The marker of a synchronization request. -/
def newCalls (c : Context) : Request → List AccessRecord
  | .sync site => [c.recordNow .sync site]
  | _ => []

/-- The marker of the end of a branch, if there is one. -/
def newJoins (c : Context) : Request → List (Nat × AccessRecord)
  | .exitBranch site =>
    match c.branches with
    | [] => []
    | b :: rest =>
      if b.synchronizes then [(b.here.branch, { c with branches := rest }.recordNow .sync site)]
      else []
  | _ => []

/-- The arm that begins, if there is one. -/
def newArms (c : Context) : Request → List ArmRef
  | .enterBranch => [⟨c.branchCount + 1, 0⟩]
  | .nextArm =>
    match c.branches with
    | [] => []
    | b :: _ => [⟨b.here.branch, b.here.arm + 1⟩]
  | _ => []

/-- The walk after one more request. -/
def step (w : Walk) (q : Request) : Walk :=
  { context := w.context.step q
    calls := w.calls ++ newCalls w.context q
    joins := w.joins ++ newJoins w.context q
    arms := w.arms ++ newArms w.context q }

/-- The walk of requests to a new context. -/
def run (strict : Bool) (qs : List Request) : Walk := qs.foldl step { context := .empty strict }

/-- All markers that were left. -/
def markers (w : Walk) : List AccessRecord := w.calls ++ w.joins.map Prod.snd

theorem mem_markers {w : Walk} {m : AccessRecord} :
    m ∈ w.markers ↔ m ∈ w.calls ∨ ∃ k, (k, m) ∈ w.joins := by
  simp [markers]

end Walk

/-! ## Executions -/

/-- The arm that an execution takes of each branch; nothing for a branch that it
passes over. -/
abbrev Choice := Nat → Option Nat

/-- The choice takes one of the given arms of a branch.  Only a branch with a single
arm is passed over. -/
def Choice.allows (β : Choice) (arms : List ArmRef) (branch : Nat) : Bool :=
  match β branch with
  | some i => arms.contains ⟨branch, i⟩
  | none => !arms.contains ⟨branch, 1⟩

/-- The choice fits the branches that have the given arms. -/
def Choice.Admits (β : Choice) (arms : List ArmRef) : Prop :=
  ∀ ref ∈ arms, β.allows arms ref.branch = true

/-- The execution gets to a point with the arms `p` around it. -/
def Choice.Takes (β : Choice) (p : ArmPath) : Prop := ∀ ref ∈ p, β ref.branch = some ref.arm

namespace Choice

variable {β : Choice}

instance (β : Choice) (arms : List ArmRef) : Decidable (β.Admits arms) :=
  inferInstanceAs (Decidable (∀ ref ∈ arms, β.allows arms ref.branch = true))

instance (β : Choice) (p : ArmPath) : Decidable (β.Takes p) :=
  inferInstanceAs (Decidable (∀ ref ∈ p, β ref.branch = some ref.arm))

theorem takes_append {p q : ArmPath} : β.Takes (p ++ q) ↔ β.Takes p ∧ β.Takes q := by
  simp only [Takes, List.mem_append, or_imp, forall_and]

theorem takes_singleton {ref : ArmRef} : β.Takes [ref] ↔ β ref.branch = some ref.arm := by
  simp [Takes]

/-- No execution gets to points on different arms of one branch. -/
theorem Takes.exclusive {p q : ArmPath} (hp : β.Takes p) (hq : β.Takes q) :
    exclusive p q = false := by
  induction p generalizing q with
  | nil => cases q <;> rfl
  | cons a as ih =>
      cases q with
      | nil => rfl
      | cons b bs =>
          have ha : β a.branch = some a.arm := hp a List.mem_cons_self
          have hb : β b.branch = some b.arm := hq b List.mem_cons_self
          have rest : Capability.exclusive as bs = false :=
            ih (fun ref h => hp ref (List.mem_cons_of_mem _ h))
              (fun ref h => hq ref (List.mem_cons_of_mem _ h))
          rw [Capability.exclusive]
          by_cases same : a.branch = b.branch
          · have arms : a.arm = b.arm := by
              rw [same, hb] at ha
              exact (Option.some.inj ha).symm
            simp [same, arms, rest]
          · simp [same]

/-- An execution that makes two accesses passes every marker that lies on the
paths of both. -/
theorem Takes.onPath {p q m : ArmPath} (hp : β.Takes p) (hq : β.Takes q)
    (h : Capability.onPath m [p, q] = true) : β.Takes m := by
  intro ref href
  have taken := List.all_eq_true.mp h ref href
  simp only [List.any_cons, List.any_nil, Bool.or_false, Bool.or_eq_true,
    List.contains_iff_mem] at taken
  rcases taken with hmem | hmem
  · exact hp ref hmem
  · exact hq ref hmem

end Choice

/-! ## What a request does to the histories -/

namespace Context

variable {c c' : Context}

/-- What became of the capabilities when at most the record `new` was made.  Each history
was there before in the same frame, and has the record behind it only if the frame is open;
or it is that of a new capability of an open frame. -/
structure Files (new : Option AccessRecord) (c c' : Context) : Prop where
  table : ∀ b' ∈ c'.table, (b'.history = [] ∧ b'.frame ∈ c.frames) ∨
    ∃ b ∈ c.table, b'.frame = b.frame ∧ (b'.history = b.history ∨
      ∃ r, new = some r ∧ b.frame ∈ c.frames ∧ b'.history = b.history ++ [r])
  frames : ∀ f ∈ c'.frames, f ∈ c.frames ∨ (f = c.nextFrame ∧ f < c'.nextFrame)
  nextFrame : c.nextFrame ≤ c'.nextFrame
  seq : c'.seq = c.seq + new.toList.length
  branches : c'.branches = c.branches
  branchCount : c'.branchCount = c.branchCount

/-- Every history was there before, or is empty. -/
def Keeps (c c' : Context) : Prop :=
  ∀ b' ∈ c'.table, b'.history = [] ∨ ∃ b ∈ c.table, b'.history = b.history

/-- Every history was there before, or has one more record, or is empty. -/
def Gains (r : AccessRecord) (c c' : Context) : Prop :=
  ∀ b' ∈ c'.table, b'.history = [] ∨
    ∃ b ∈ c.table, b'.history = b.history ∨ b'.history = b.history ++ [r]

/-- A request that keeps the histories and leaves the branches alone. -/
structure Idle (c c' : Context) : Prop where
  histories : c.Keeps c'
  seq : c'.seq = c.seq
  branches : c'.branches = c.branches
  branchCount : c'.branchCount = c.branchCount

/-- A request that makes one record of an access and leaves the branches alone. -/
structure Notes (kind : AccessKind) (site : Span) (c c' : Context) : Prop where
  histories : c.Gains (c.recordNow kind site) c'
  seq : c'.seq = c.seq + 1
  branches : c'.branches = c.branches
  branchCount : c'.branchCount = c.branchCount

/-- A request that makes at most a record of an access. -/
def Plain (c c' : Context) : Prop :=
  c.Idle c' ∨ ∃ kind site, kind ≠ .sync ∧ c.Notes kind site c'

theorem Keeps.records {r : AccessRecord} (h : c.Keeps c') (hr : r ∈ c'.records) :
    r ∈ c.records := by
  obtain ⟨b', hb', hmem⟩ := List.mem_flatMap.mp hr
  rcases h b' hb' with hnil | ⟨b, hb, heq⟩
  · rw [hnil] at hmem
    cases hmem
  · rw [heq] at hmem
    exact List.mem_flatMap.mpr ⟨b, hb, hmem⟩

theorem Gains.records {r x : AccessRecord} (h : c.Gains r c') (hx : x ∈ c'.records) :
    x ∈ c.records ∨ x = r := by
  obtain ⟨b', hb', hmem⟩ := List.mem_flatMap.mp hx
  rcases h b' hb' with hnil | ⟨b, hb, heq | heq⟩
  · rw [hnil] at hmem
    cases hmem
  · rw [heq] at hmem
    exact Or.inl (List.mem_flatMap.mpr ⟨b, hb, hmem⟩)
  · rw [heq, List.mem_append, List.mem_singleton] at hmem
    exact hmem.imp_left fun hmem => List.mem_flatMap.mpr ⟨b, hb, hmem⟩

theorem Files.idle (h : c.Files none c') : c.Idle c' where
  histories b' hb' := by
    rcases h.table b' hb' with ⟨hnil, -⟩ | ⟨b, hb, -, heq | ⟨r, hr, -⟩⟩
    · exact Or.inl hnil
    · exact Or.inr ⟨b, hb, heq⟩
    · cases hr
  seq := h.seq
  branches := h.branches
  branchCount := h.branchCount

theorem Files.gains {r : AccessRecord} (h : c.Files (some r) c') : c.Gains r c' := by
  intro b' hb'
  rcases h.table b' hb' with ⟨hnil, -⟩ | ⟨b, hb, -, heq | ⟨r, hr, -, heq⟩⟩
  · exact Or.inl hnil
  · exact Or.inr ⟨b, hb, Or.inl heq⟩
  · cases hr
    exact Or.inr ⟨b, hb, Or.inr heq⟩

theorem Files.notes {kind : AccessKind} {site : Span}
    (h : c.Files (some (c.recordNow kind site)) c') : c.Notes kind site c' :=
  ⟨h.gains, h.seq, h.branches, h.branchCount⟩

/-- The histories stay, and so do the frames. -/
theorem files_mapBindings (c : Context) {f : Binding → Binding}
    (h : ∀ b, (f b).frame = b.frame ∧ (f b).history = b.history) :
    c.Files none (c.mapBindings f) where
  table b' hb' := by
    obtain ⟨b, hb, rfl⟩ := List.mem_map.mp hb'
    exact Or.inr ⟨b, hb, (h b).1, Or.inl (h b).2⟩
  frames _ hf := Or.inl hf
  nextFrame := Nat.le_refl _
  seq := rfl
  branches := rfl
  branchCount := rfl

/-- The table stays, and no frame is opened but the next one. -/
theorem files_of_table {c' : Context} (table : c'.table = c.table) (seq : c'.seq = c.seq)
    (branches : c'.branches = c.branches) (branchCount : c'.branchCount = c.branchCount)
    (frames : ∀ f ∈ c'.frames, f ∈ c.frames ∨ (f = c.nextFrame ∧ f < c'.nextFrame))
    (nextFrame : c.nextFrame ≤ c'.nextFrame) : c.Files none c' where
  table b hb := Or.inr ⟨b, table ▸ hb, rfl, Or.inl rfl⟩
  frames := frames
  nextFrame := nextFrame
  seq := seq
  branches := branches
  branchCount := branchCount

theorem files_refl (c : Context) : c.Files none c :=
  files_of_table rfl rfl rfl rfl (fun _ => Or.inl) (Nat.le_refl _)

theorem files_note {b : Binding} (hb : b ∈ c.table) (hframe : b.frame ∈ c.frames)
    (life : Lifecycle) (kind : AccessKind) (site : Span) :
    c.Files (some (c.recordNow kind site)) (c.note b life kind site).1 where
  table b' hb' := by
    obtain ⟨old, hold, rfl⟩ := List.mem_map.mp hb'
    dsimp only
    split
    next => exact Or.inr ⟨b, hb, rfl, Or.inr ⟨_, rfl, hframe, rfl⟩⟩
    next => exact Or.inr ⟨old, hold, rfl, Or.inl rfl⟩
  frames _ hf := Or.inl hf
  nextFrame := Nat.le_refl _
  seq := rfl
  branches := rfl
  branchCount := rfl

/-- The request makes at most a record of an access. -/
def FilesAccess (c c' : Context) : Prop :=
  c.Files none c' ∨ ∃ kind site, kind ≠ .sync ∧ c.Files (some (c.recordNow kind site)) c'

theorem FilesAccess.plain (h : c.FilesAccess c') : c.Plain c' :=
  h.imp Files.idle fun ⟨kind, site, access, files⟩ => ⟨kind, site, access, files.notes⟩

theorem filesAccess_keepOr {r : Except Fault Context} (h : ∀ c', r = .ok c' → c.FilesAccess c') :
    c.FilesAccess (c.keepOr r) := by
  cases r with
  | error f => exact Or.inl (files_refl c)
  | ok c' => exact h c' rfl

theorem filesAccess_keepOr_map {α : Type} {r : Except Fault (α × Context)}
    (h : ∀ a c', r = .ok (a, c') → c.FilesAccess c') :
    c.FilesAccess (c.keepOr (r.map Prod.snd)) := by
  cases r with
  | error f => exact Or.inl (files_refl c)
  | ok result => exact h result.1 result.2 rfl

theorem files_exit {site : Span} {found : List Violation}
    (h : c.exit site = .ok (found, c')) : c.Files none c' := by
  unfold exit at h
  split at h
  next => cases h
  next f rest hframes =>
    cases h
    refine files_of_table rfl rfl rfl rfl (fun g hg => Or.inl ?_) (Nat.le_refl _)
    rw [hframes]
    exact List.mem_cons_of_mem _ hg

theorem files_enter (c : Context) : c.Files none c.enter := by
  refine files_of_table rfl rfl rfl rfl (fun f hf => ?_) (Nat.le_succ _)
  rcases List.mem_cons.mp hf with rfl | hf
  · exact Or.inr ⟨rfl, Nat.lt_succ_self _⟩
  · exact Or.inl hf

theorem files_exitThread (h : c.exitThread = .ok c') : c.Files none c' := by
  unfold exitThread at h
  split at h
  next => cases h
  next =>
    cases h
    exact files_of_table rfl rfl rfl rfl (fun _ => Or.inl) (Nat.le_refl _)

theorem files_define {name : String} {kind : CapabilityKind} {site : Span}
    (h : c.define name kind site = .ok c') : c.Files none c' := by
  unfold define at h
  split at h
  next => cases h
  next f rest hframes =>
    split at h
    next => cases h
    next =>
      cases h
      refine ⟨fun b' hb' => ?_, fun _ => Or.inl, Nat.le_refl _, rfl, rfl, rfl⟩
      rcases List.mem_append.mp hb' with hold | hnew
      · exact Or.inr ⟨b', hold, rfl, Or.inl rfl⟩
      · rw [List.mem_singleton.mp hnew, hframes]
        exact Or.inl ⟨rfl, List.mem_cons_self⟩

theorem filesAccess_of_accesses
    {op : Context → String → Span → Except Fault (Option Violation × Context)}
    {step : Span → Lifecycle → Lifecycle} {kind : AccessKind} (accesses : Accesses op step kind)
    (access : kind ≠ .sync) {name : String} {site : Span} {v : Option Violation}
    (h : op c name site = .ok (v, c')) : c.FilesAccess c' := by
  obtain ⟨b, found, acts⟩ := accesses.acts_ok h
  rcases acts.changed with rfl | ⟨-, rfl⟩
  · exact Or.inl (files_refl c')
  · exact Or.inr ⟨kind, site, access,
      files_note (mem_table_of_find? found) (frame_mem_of_find? found) _ _ _⟩

theorem files_remark {name : String} {kind : AccessKind} {site : Span}
    (h : c.remark name kind site = .ok c') : c.Files (some (c.recordNow kind site)) c' := by
  obtain ⟨b, found, rfl⟩ := remark_ok h
  exact files_note (mem_table_of_find? found) (frame_mem_of_find? found) _ _ _

theorem step_files (c : Context) {q : Request} (h : q.isPlain = true) :
    c.FilesAccess (c.step q) := by
  cases q with
  | enter => exact Or.inl (files_enter c)
  | enterThread tag => exact Or.inl (files_of_table rfl rfl rfl rfl (fun _ => Or.inl) (Nat.le_refl _))
  | exit site => exact filesAccess_keepOr_map fun _ _ h => Or.inl (files_exit h)
  | exitThread => exact filesAccess_keepOr fun _ h => Or.inl (files_exitThread h)
  | define name kind site => exact filesAccess_keepOr fun _ h => Or.inl (files_define h)
  | use name site =>
    exact filesAccess_keepOr_map fun _ _ => filesAccess_of_accesses accesses_use nofun
  | consume name site =>
    exact filesAccess_keepOr_map fun _ _ => filesAccess_of_accesses accesses_consume nofun
  | share name site =>
    exact filesAccess_keepOr_map fun _ _ => filesAccess_of_accesses accesses_share nofun
  | note name kind access site =>
      exact filesAccess_keepOr fun _ h => Or.inr ⟨kind, site, access, files_remark h⟩
  | enterBranch => cases h
  | nextArm => cases h
  | exitBranch site => cases h
  | sync site => cases h

theorem step_plain (c : Context) {q : Request} (h : q.isPlain = true) : c.Plain (c.step q) :=
  (c.step_files h).plain

/-- A synchronization point makes one record, apart from what it says about the branch. -/
theorem files_sync (c : Context) (site : Span) :
    c.Files (some (c.recordNow .sync site)) { c.sync site with branches := c.branches } where
  table b' hb' := by
    obtain ⟨b, hb, rfl⟩ := List.mem_map.mp hb'
    split
    next hopen => exact Or.inr ⟨b, hb, rfl, Or.inr ⟨_, rfl, List.contains_iff_mem.mp hopen, rfl⟩⟩
    next => exact Or.inr ⟨b, hb, rfl, Or.inl rfl⟩
  frames _ hf := Or.inl hf
  nextFrame := Nat.le_refl _
  seq := rfl
  branches := rfl
  branchCount := rfl

theorem sync_gains (c : Context) (site : Span) :
    c.Gains (c.recordNow .sync site) (c.sync site) :=
  (c.files_sync site).gains

end Context

end ResourceSafety.Capability
