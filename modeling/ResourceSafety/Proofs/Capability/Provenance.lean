import ResourceSafety.Proofs.Capability.Requests
import ResourceSafety.Proofs.Capability.Scan
import ResourceSafety.Proofs.Violation

/-!
# Where the conflicts of capabilities come from

A finding about a capability names an earlier span: that of a consuming access, of an access
by another thread, or of the definition.  The first is kept in the lifecycle, which is captured,
rewound and joined in any order; the second is in the history, which only grows.

A *chronicle* is a run of operations on a context, with the snapshots taken so far and two
journals: the definitions, and the *deeds*, which are the accesses that left a record.  The
journals are written down from the answers of the context, and its histories are not consulted.

A lifecycle is *sited* when both of its consuming sites are places of consuming deeds of its
capability (`Lifecycle.Sited`).  Joins choose among the sites of their arms, so every lifecycle
of the context and of every snapshot is sited.  The accesses of a history are the deeds of its
capability, in their order (`Chronicle.Owns`).  Hence a finding blames a deed, or the
definition, of the capability that it names (`Chronicle.Traced.blames`).
-/

namespace ResourceSafety.Capability

/-! ## Lifecycles -/

/-- The consuming sites of a lifecycle are places where its capability was consumed. -/
structure Lifecycle.Sited (P : Span → Prop) (l : Lifecycle) : Prop where
  consumed : l.consumedAt.isZero = false → P l.consumedAt
  mayConsumed : l.mayConsumedAt.isZero = false → P l.mayConsumedAt

theorem isZero_zero : Span.zero.isZero ≠ false := by decide

namespace Lifecycle

theorem firstSite_mem {sites : List Span} (set : (firstSite sites).isZero = false) :
    firstSite sites ∈ sites := by
  simp only [firstSite] at set ⊢
  cases found : sites.find? (!·.isZero) with
  | none =>
    rw [found] at set
    exact absurd set isZero_zero
  | some s => exact List.mem_of_find?_eq_some found

namespace Sited

variable {P Q : Span → Prop} {l : Lifecycle}

theorem fresh (P : Span → Prop) : Sited P {} :=
  ⟨fun set => absurd set isZero_zero, fun set => absurd set isZero_zero⟩

theorem mono (h : l.Sited P) (more : ∀ s, P s → Q s) : l.Sited Q :=
  ⟨fun set => more _ (h.consumed set), fun set => more _ (h.mayConsumed set)⟩

theorem consume {site : Span} (done : P site) : (l.consume site).Sited P :=
  ⟨fun _ => done, fun set => absurd set isZero_zero⟩

theorem rewind (h : l.Sited P) (now : Lifecycle) : (now.rewind l).Sited P :=
  ⟨h.consumed, h.mayConsumed⟩

/-- The first site among arms that are sited. -/
theorem firstSite {arms : List Lifecycle} {f : Lifecycle → Span}
    (each : ∀ a ∈ arms, (f a).isZero = false → P (f a))
    (set : (firstSite (arms.map f)).isZero = false) : P (Lifecycle.firstSite (arms.map f)) := by
  obtain ⟨a, mem, same⟩ := List.mem_map.mp (firstSite_mem set)
  exact same ▸ each a mem (by rw [same]; exact set)

theorem merge (h : l.Sited P) {rest : List Lifecycle} (others : ∀ x ∈ rest, x.Sited P) :
    (l.merge rest).Sited P := by
  have each : ∀ a ∈ l :: rest, a.Sited P := List.forall_mem_cons.mpr ⟨h, others⟩
  have consumed := firstSite (P := P) fun a mem => (each a mem).consumed
  have mayConsumed := firstSite (P := P) fun a mem => (each a mem).mayConsumed
  simp only [Lifecycle.merge]
  split
  · exact ⟨consumed, fun set => absurd set isZero_zero⟩
  · split
    · refine ⟨fun set => absurd set isZero_zero, fun set => ?_⟩
      split at set
      next unset => rw [if_pos unset]; exact consumed set
      next unset => rw [if_neg unset]; exact mayConsumed set
    · exact ⟨consumed, mayConsumed⟩

/-- A refusal blames a place where the capability was consumed. -/
theorem refusal (h : l.Sited P) {name reason : String} {site s : Span} {v : Violation}
    (refused : l.refusal? name site reason = some v) (conflict : v.conflict = some s) :
    v.kind = .useAfterConsumption ∧ v.binding = name ∧ P s := by
  simp only [refusal?] at refused
  split at refused
  · cases refused
    obtain ⟨rfl, set⟩ := Violation.earlier_of_conflict rfl conflict
    exact ⟨rfl, rfl, h.consumed set⟩
  · split at refused
    · cases refused
      obtain ⟨rfl, set⟩ := Violation.earlier_of_conflict rfl conflict
      exact ⟨rfl, rfl, h.mayConsumed set⟩
    · cases refused

end Sited

end Lifecycle

/-! ## Requests -/

namespace Context

variable {c c' : Context}

theorem table_exit {site : Span} {vs : List Violation} (h : c.exit site = .ok (vs, c')) :
    c'.table = c.table := by
  simp only [exit] at h
  split at h
  · cases h
  · cases h
    rfl

theorem table_exitThread (h : c.exitThread = .ok c') : c'.table = c.table := by
  simp only [exitThread] at h
  split at h
  · cases h
  · cases h
    rfl

theorem table_nextArm (h : c.nextArm = .ok c') : c'.table = c.table := by
  simp only [nextArm] at h
  split at h
  · cases h
  · cases h
    rfl

/-- A request without findings, answered with a list of none. -/
theorem ok_of_map_nil {r : Except Fault Context} {vs : List Violation}
    (h : r.map (([] : List Violation), ·) = .ok (vs, c)) : r = .ok c ∧ vs = [] := by
  obtain ⟨c', ran, same⟩ := exists_of_map_ok h
  cases same
  exact ⟨ran, rfl⟩

/-- An access, answered with a list of what it found. -/
theorem Accesses.acts_of_map
    {op : Context → String → Span → Except Fault (Option Violation × Context)}
    {step : Span → Lifecycle → Lifecycle} {kind : AccessKind} (accesses : Accesses op step kind)
    {name : String} {site : Span} {vs : List Violation}
    (h : (op c name site).map (fun (v, c) => (v.toList, c)) = .ok (vs, c')) :
    ∃ b w, c.find? name = some b ∧ vs = w.toList ∧ c.Acts b (step site) kind site w c' := by
  obtain ⟨⟨w, c₁⟩, reached, same⟩ := exists_of_map_ok h
  cases same
  obtain ⟨b, found, acts⟩ := accesses.acts_ok reached
  exact ⟨b, w, found, rfl, acts⟩

end Context

/-! ## Chronicles -/

/-- An operation on a context.  Snapshots go by the order in which they were taken. -/
inductive Operation
  | enter
  | exit (site : Span)
  | enterThread (tag : ThreadTag)
  | exitThread
  | enterBranch
  | nextArm
  | exitBranch (site : Span)
  | define (name : String) (kind : CapabilityKind) (site : Span)
  | use (name : String) (site : Span)
  | consume (name : String) (site : Span)
  | share (name : String) (site : Span)
  | note (name : String) (kind : AccessKind) (site : Span)
  | sync (site : Span)
  | validate
  | snapshot
  | restore (index : Nat)
  | merge (arms : List Nat)
deriving Repr, DecidableEq

/-- An access that left a record. -/
structure Deed where
  /-- The number of the capability. -/
  id : Nat
  /-- The record. -/
  record : AccessRecord
  /-- The record was only noted; the capability was not accessed. -/
  noted : Bool
deriving Repr, DecidableEq

/-- A context that was worked with, the snapshots taken so far, and the journals. -/
structure Chronicle where
  /-- The context. -/
  context : Context
  /-- The snapshots, oldest first. -/
  snapshots : List Snapshot := []
  /-- The places of definition, with the numbers of the capabilities. -/
  defined : List (Nat × Span) := []
  /-- The accesses that left a record, oldest first. -/
  deeds : List Deed := []
deriving Repr, DecidableEq

/-- What an operation asks to be recorded, if it does: the name of the capability, the kind and
the place of the record, and whether it is only noted. -/
def Operation.access? : Operation → Option (String × AccessKind × Span × Bool)
  | use name site => some (name, .use, site, false)
  | consume name site => some (name, .consume, site, false)
  | share name site => some (name, .share, site, false)
  | note name kind site => some (name, kind, site, true)
  | _ => none

namespace Chronicle

/-- The snapshot with a number.  One that was never taken knows no capability. -/
def taken (k : Chronicle) (index : Nat) : Snapshot := k.snapshots[index]?.getD []

/-- What the context answers to an operation, and the context after it. -/
def answer (k : Chronicle) : Operation → Except Fault (List Violation × Context)
  | .enter => .ok ([], k.context.enter)
  | .exit site => k.context.exit site
  | .enterThread tag => .ok ([], k.context.enterThread tag)
  | .exitThread => k.context.exitThread.map ([], ·)
  | .enterBranch => .ok ([], k.context.enterBranch)
  | .nextArm => k.context.nextArm.map ([], ·)
  | .exitBranch site => (k.context.exitBranch site).map ([], ·)
  | .define name kind site => (k.context.define name kind site).map ([], ·)
  | .use name site => (k.context.use name site).map fun (v, c) => (v.toList, c)
  | .consume name site => (k.context.consume name site).map fun (v, c) => (v.toList, c)
  | .share name site => (k.context.share name site).map fun (v, c) => (v.toList, c)
  | .note name kind site => (k.context.remark name kind site).map ([], ·)
  | .sync site => .ok ([], k.context.sync site)
  | .validate => .ok (k.context.validate, k.context)
  | .snapshot => .ok ([], k.context)
  | .restore index => .ok ([], k.context.restore (k.taken index))
  | .merge arms => .ok ([], k.context.merge (arms.map k.taken))

/-- The deed of an operation that led to the context `c`.  It is none without a new record. -/
def newDeeds (k : Chronicle) (o : Operation) (c : Context) : List Deed :=
  match o.access? with
  | some (name, kind, site, noted) =>
    if c.seq = k.context.seq then []
    else (k.context.find? name).toList.map fun b => ⟨b.id, k.context.recordNow kind site, noted⟩
  | none => []

/-- The definition that an operation makes. -/
def newDefined (k : Chronicle) : Operation → List (Nat × Span)
  | .define _ _ site => [(k.context.table.length, site)]
  | _ => []

/-- The snapshot that an operation takes. -/
def newSnapshots (k : Chronicle) : Operation → List Snapshot
  | .snapshot => [k.context.snapshot]
  | _ => []

/-- The chronicle after one more operation.  One that is refused is not part of it. -/
def step (k : Chronicle) (o : Operation) : Chronicle :=
  match k.answer o with
  | .error _ => k
  | .ok (_, c) =>
    { context := c
      snapshots := k.snapshots ++ k.newSnapshots o
      defined := k.defined ++ k.newDefined o
      deeds := k.deeds ++ k.newDeeds o c }

/-- The chronicle of operations on a new context. -/
def run (strict : Bool) (os : List Operation) : Chronicle :=
  os.foldl step { context := .empty strict }

/-- The capabilities that an operation can have findings about. -/
def subjects (k : Chronicle) : Operation → List Binding
  | .exit _ => k.context.frames.head?.toList.flatMap k.context.inFrame
  | .use name _ | .consume name _ | .share name _ => (k.context.find? name).toList
  | .validate => k.context.table
  | _ => []

end Chronicle

/-- The deeds include a consuming access at this place. -/
def Consumed (deeds : List Deed) (id : Nat) (s : Span) : Prop :=
  ∃ d ∈ deeds, d.id = id ∧ d.noted = false ∧ d.record.kind = .consume ∧ d.record.span = s

/-- The records of one capability's deeds. -/
def recordsOf (deeds : List Deed) (id : Nat) : List AccessRecord :=
  (deeds.filter (·.id == id)).map (·.record)

theorem recordsOf_append (deeds more : List Deed) (id : Nat) :
    recordsOf (deeds ++ more) id = recordsOf deeds id ++ recordsOf more id := by
  simp [recordsOf]

theorem recordsOf_eq_nil {deeds : List Deed} {id : Nat} (apart : ∀ d ∈ deeds, d.id ≠ id) :
    recordsOf deeds id = [] := by
  simpa [recordsOf, List.filter_eq_nil_iff] using apart

theorem Consumed.mono {deeds : List Deed} {id : Nat} {s : Span} (h : Consumed deeds id s)
    (more : List Deed) :
    Consumed (deeds ++ more) id s := by
  obtain ⟨d, mem, rest⟩ := h
  exact ⟨d, List.mem_append_left _ mem, rest⟩

namespace Chronicle

/-- What a finding about the capability `b` is held against.  The deeds are those before the
operation that found it, and `later` are those after it. -/
def Explains (k : Chronicle) (later : List Deed) (b : Binding) (v : Violation) (s : Span) : Prop :=
  match v.kind with
  | .useAfterConsumption => Consumed k.deeds b.id s
  | .resourceLeak => (b.id, s) ∈ k.defined
  | .concurrentUse => ∃ a e : AccessRecord,
      a ∈ recordsOf k.deeds b.id ∧ [a, e].Sublist (recordsOf later b.id) ∧
      a.span = s ∧ a.thread = v.threads.1 ∧ (a.kind = .use ∨ a.kind = .consume) ∧
      e.span = v.span ∧ e.thread = v.threads.2 ∧ (e.kind = .use ∨ e.kind = .consume)
  | _ => False

/-- The finding of an operation blames, with the span `s`, a deed or the definition of the
capability that it names. -/
def Blames (k : Chronicle) (o : Operation) (v : Violation) (s : Span) : Prop :=
  ∃ b ∈ k.subjects o, b.name = v.binding ∧ k.Explains (k.step o).deeds b v s

/-! ## The trace of every place -/

/-- The lifecycle of a capability is sited among its deeds, its definition is one that was made,
and the accesses of its history are its deeds in order. -/
structure Owns (defined : List (Nat × Span)) (deeds : List Deed) (b : Binding) : Prop where
  life : b.life.Sited (Consumed deeds b.id)
  born : (b.id, b.definedAt) ∈ defined
  history : b.history.filter (·.kind.conflicts) =
    (recordsOf deeds b.id).filter (·.kind.conflicts)

/-- Every place that the context and the snapshots hold is traced to a deed. -/
structure Traced (k : Chronicle) : Prop where
  numbered : ∀ d ∈ k.deeds, d.id < k.context.table.length
  bindings : ∀ b ∈ k.context.table, Owns k.defined k.deeds b ∧ b.id < k.context.table.length
  snapshots : ∀ s ∈ k.snapshots, ∀ p ∈ s, p.2.Sited (Consumed k.deeds p.1)

variable {k : Chronicle} {defined born : List (Nat × Span)} {deeds more : List Deed}

/-- Definitions and deeds of other capabilities change nothing. -/
theorem Owns.others {b : Binding} (h : Owns defined deeds b) (apart : ∀ d ∈ more, d.id ≠ b.id) :
    Owns (defined ++ born) (deeds ++ more) b where
  life := h.life.mono fun _ did => did.mono more
  born := List.mem_append_left _ h.born
  history := by rw [h.history, recordsOf_append, recordsOf_eq_nil apart, List.append_nil]

/-- An operation keeps the trace when it keeps it for every capability. -/
theorem Traced.extend (h : k.Traced) {c : Context} {taken : List Snapshot}
    (length : k.context.table.length ≤ c.table.length)
    (numbered : ∀ d ∈ more, d.id < c.table.length)
    (bindings : ∀ b ∈ c.table, Owns (k.defined ++ born) (k.deeds ++ more) b ∧
      b.id < c.table.length)
    (snapshots : ∀ s ∈ taken, ∀ p ∈ s, p.2.Sited (Consumed k.deeds p.1)) :
    Traced ⟨c, k.snapshots ++ taken, k.defined ++ born, k.deeds ++ more⟩ where
  numbered d mem := by
    obtain old | new := List.mem_append.mp mem
    · exact (h.numbered d old).trans_le length
    · exact numbered d new
  bindings := bindings
  snapshots s mem p inside := by
    have known : p.2.Sited (Consumed k.deeds p.1) := by
      obtain old | new := List.mem_append.mp mem
      · exact h.snapshots s old p inside
      · exact snapshots s new p inside
    exact known.mono fun _ did => did.mono more

/-- Every capability keeps its number, its definition and the accesses of its history, and gets
a lifecycle that is sited among the same deeds. -/
theorem Traced.remap (h : k.Traced) {c : Context} {f : Binding → Binding}
    (table : c.table = k.context.table.map f)
    (keeps : ∀ b ∈ k.context.table, (f b).id = b.id ∧ (f b).definedAt = b.definedAt ∧
      (f b).history.filter (·.kind.conflicts) = b.history.filter (·.kind.conflicts) ∧
      (f b).life.Sited (Consumed k.deeds b.id)) :
    Traced ⟨c, k.snapshots ++ [], k.defined ++ [], k.deeds ++ []⟩ := by
  have length : c.table.length = k.context.table.length := by rw [table, List.length_map]
  refine h.extend length.ge (fun _ mem => absurd mem List.not_mem_nil) (fun b' mem => ?_)
    (fun _ mem => absurd mem List.not_mem_nil)
  rw [table] at mem
  obtain ⟨b, inside, rfl⟩ := List.mem_map.mp mem
  obtain ⟨id, definedAt, history, sited⟩ := keeps b inside
  obtain ⟨owns, below⟩ := h.bindings b inside
  simp only [List.append_nil]
  refine ⟨⟨id ▸ sited, ?_, ?_⟩, by rw [id, length]; exact below⟩
  · rw [id, definedAt]
    exact owns.born
  · rw [history, id]
    exact owns.history

/-- The table stays as it is. -/
theorem Traced.quiet (h : k.Traced) {c : Context} (table : c.table = k.context.table) :
    Traced ⟨c, k.snapshots ++ [], k.defined ++ [], k.deeds ++ []⟩ :=
  h.remap (f := id) (by rw [table, List.map_id])
    fun b inside => ⟨rfl, rfl, rfl, (h.bindings b inside).1.life⟩

/-- One capability gets a record and a lifecycle. -/
theorem Traced.note (h : k.Traced) {b : Binding} (inside : b ∈ k.context.table)
    {life : Lifecycle} {kind : AccessKind} {site : Span} {noted : Bool}
    (sited : life.Sited
      (Consumed (k.deeds ++ [⟨b.id, k.context.recordNow kind site, noted⟩]) b.id)) :
    Traced ⟨(k.context.note b life kind site).1, k.snapshots ++ [], k.defined ++ [],
      k.deeds ++ [⟨b.id, k.context.recordNow kind site, noted⟩]⟩ := by
  obtain ⟨owns, below⟩ := h.bindings b inside
  have length : (k.context.note b life kind site).1.table.length = k.context.table.length := by
    simp [Context.note, Context.put, Context.mapBindings]
  refine h.extend length.ge (fun d mem => ?_) (fun b' mem => ?_)
    (fun _ mem => absurd mem List.not_mem_nil)
  · rw [List.mem_singleton.mp mem, length]
    exact below
  · obtain ⟨x, known, rfl⟩ := List.mem_map.mp mem
    rw [length]
    split
    next same =>
      refine ⟨⟨sited, List.mem_append_left _ owns.born, ?_⟩, below⟩
      show (b.history ++ [k.context.recordNow kind site]).filter (·.kind.conflicts) =
        (recordsOf (k.deeds ++ [_]) b.id).filter (·.kind.conflicts)
      rw [recordsOf_append, List.filter_append, List.filter_append, owns.history]
      simp [recordsOf]
    next other =>
      obtain ⟨owns', below'⟩ := h.bindings x known
      refine ⟨owns'.others fun d mem same => other ?_, below'⟩
      rw [← same, List.mem_singleton.mp mem]

/-- A synchronization point leaves markers, which are no accesses. -/
theorem Traced.sync (h : k.Traced) (c : Context) (table : c.table = k.context.table)
    (site : Span) : Traced ⟨c.sync site, k.snapshots ++ [], k.defined ++ [], k.deeds ++ []⟩ := by
  refine h.remap (by rw [← table]; rfl) fun b inside => ?_
  have life := (h.bindings b inside).1.life
  split
  · exact ⟨rfl, rfl, by simp [Context.recordNow, AccessKind.conflicts], life⟩
  · exact ⟨rfl, rfl, rfl, life⟩

theorem Traced.exitBranch (h : k.Traced) {site : Span} {c : Context}
    (hc : k.context.exitBranch site = .ok c) :
    Traced ⟨c, k.snapshots ++ [], k.defined ++ [], k.deeds ++ []⟩ := by
  simp only [Context.exitBranch] at hc
  split at hc
  · cases hc
  next b rest _ =>
    cases hc
    split
    · exact h.sync { k.context with branches := rest } rfl site
    · exact h.quiet rfl

theorem Traced.define (h : k.Traced) {name : String} {kind : CapabilityKind} {site : Span}
    {c : Context} (hc : k.context.define name kind site = .ok c) :
    Traced ⟨c, k.snapshots ++ [], k.defined ++ [(k.context.table.length, site)],
      k.deeds ++ []⟩ := by
  simp only [Context.define] at hc
  split at hc
  · cases hc
  · split at hc
    · cases hc
    · cases hc
      refine h.extend (by simp) (fun _ mem => absurd mem List.not_mem_nil) (fun b mem => ?_)
        (fun _ mem => absurd mem List.not_mem_nil)
      rw [List.length_append, List.length_singleton]
      obtain old | new := List.mem_append.mp mem
      · obtain ⟨owns, below⟩ := h.bindings b old
        exact ⟨owns.others fun _ mem => absurd mem List.not_mem_nil, Nat.lt_succ_of_lt below⟩
      · rw [List.mem_singleton.mp new]
        -- the number of the new capability is not that of any deed
        have none : recordsOf (k.deeds ++ []) k.context.table.length = [] := by
          refine recordsOf_eq_nil fun d mem same => ?_
          rw [List.append_nil] at mem
          exact absurd (h.numbered d mem) (same ▸ Nat.lt_irrefl _)
        exact ⟨⟨.fresh _, List.mem_append_right _ (List.mem_singleton.mpr rfl), by rw [none]⟩,
          Nat.lt_succ_self _⟩

/-- An access leaves a record and a new lifecycle, or it is refused and changes nothing. -/
theorem Traced.acts (h : k.Traced) {o : Operation} {name : String} {kind : AccessKind}
    {site : Span} {noted : Bool} (asks : o.access? = some (name, kind, site, noted)) {b : Binding}
    (found : k.context.find? name = some b) {c : Context} {life : Lifecycle}
    (changed : c = k.context ∨ c = (k.context.note b life kind site).1)
    (sited : ∀ P, b.life.Sited P → (noted = false → kind = .consume → P site) → life.Sited P) :
    Traced ⟨c, k.snapshots ++ [], k.defined ++ [], k.deeds ++ k.newDeeds o c⟩ := by
  have inside := Context.mem_table_of_find? found
  obtain rfl | rfl := changed
  · have none : k.newDeeds o k.context = [] := by simp [newDeeds, asks]
    rw [none]
    exact h.quiet rfl
  · have new : k.newDeeds o (k.context.note b life kind site).1 =
        [⟨b.id, k.context.recordNow kind site, noted⟩] := by
      have later : (k.context.note b life kind site).1.seq ≠ k.context.seq := Nat.succ_ne_self _
      simp [newDeeds, asks, later, found]
    rw [new]
    refine h.note inside (sited _ ?_ fun accessed consumes => ?_)
    · exact (h.bindings b inside).1.life.mono fun _ did => did.mono _
    · exact ⟨_, List.mem_append_right _ (List.mem_singleton.mpr rfl), rfl, accessed, consumes, rfl⟩

theorem Traced.capture (h : k.Traced) :
    Traced ⟨k.context, k.snapshots ++ [k.context.snapshot], k.defined ++ [], k.deeds ++ []⟩ := by
  refine h.extend (Nat.le_refl _) (fun _ mem => absurd mem List.not_mem_nil)
    (by simpa using h.bindings) fun s mem p inside => ?_
  rw [List.mem_singleton.mp mem] at inside
  obtain ⟨b, known, rfl⟩ := List.mem_map.mp inside
  exact (h.bindings b (List.mem_of_mem_filter known)).1.life

theorem Traced.taken (h : k.Traced) {index id : Nat} {l : Lifecycle}
    (look : (k.taken index).lookup id = some l) : l.Sited (Consumed k.deeds id) := by
  obtain ⟨s, ms, mem⟩ := Cells.exists_of_mem_getD (Cells.mem_of_lookup look)
  exact h.snapshots s ms _ mem

theorem Traced.restore (h : k.Traced) (index : Nat) :
    Traced ⟨k.context.restore (k.taken index), k.snapshots ++ [], k.defined ++ [],
      k.deeds ++ []⟩ := by
  refine h.remap rfl fun b inside => ?_
  cases look : (k.taken index).lookup b.id with
  | none => exact ⟨rfl, rfl, rfl, (h.bindings b inside).1.life⟩
  | some l => exact ⟨rfl, rfl, rfl, (h.taken look).rewind _⟩

theorem Traced.merge (h : k.Traced) (arms : List Nat) :
    Traced ⟨k.context.merge (arms.map k.taken), k.snapshots ++ [], k.defined ++ [],
      k.deeds ++ []⟩ := by
  cases arms with
  | nil => exact h.quiet rfl
  | cons first rest =>
    refine h.remap rfl fun b inside => ?_
    cases look : (k.taken first).lookup b.id with
    | none => exact ⟨rfl, rfl, rfl, (h.bindings b inside).1.life⟩
    | some l =>
      refine ⟨rfl, rfl, rfl, .rewind (.merge (h.taken look) fun x mem => ?_) _⟩
      obtain ⟨arm, ma, look'⟩ := List.mem_filterMap.mp mem
      obtain ⟨index, -, rfl⟩ := List.mem_map.mp ma
      exact h.taken look'

/-- Every operation keeps the trace. -/
theorem Traced.step (h : k.Traced) (o : Operation) : (k.step o).Traced := by
  simp only [Chronicle.step]
  split
  · exact h
  next vs c answered =>
    cases o with
    | enter | enterThread | enterBranch | validate =>
      cases answered
      exact h.quiet rfl
    | exit site => exact h.quiet (Context.table_exit answered)
    | exitThread =>
      obtain ⟨hc, -⟩ := Context.ok_of_map_nil answered
      exact h.quiet (Context.table_exitThread hc)
    | nextArm =>
      obtain ⟨hc, -⟩ := Context.ok_of_map_nil answered
      exact h.quiet (Context.table_nextArm hc)
    | exitBranch site =>
      obtain ⟨hc, -⟩ := Context.ok_of_map_nil answered
      exact h.exitBranch hc
    | define name kind site =>
      obtain ⟨hc, -⟩ := Context.ok_of_map_nil answered
      exact h.define hc
    | use name site =>
      obtain ⟨b, w, found, -, acts⟩ := Context.accesses_use.acts_of_map answered
      have changed := acts.changed.imp_right And.right
      exact h.acts rfl found changed fun P sited _ => ⟨sited.consumed, sited.mayConsumed⟩
    | consume name site =>
      obtain ⟨b, w, found, -, acts⟩ := Context.accesses_consume.acts_of_map answered
      have changed := acts.changed.imp_right And.right
      exact h.acts rfl found changed fun P _ done => .consume (done rfl rfl)
    | share name site =>
      obtain ⟨b, w, found, -, acts⟩ := Context.accesses_share.acts_of_map answered
      have changed := acts.changed.imp_right And.right
      exact h.acts rfl found changed fun P sited _ => ⟨sited.consumed, sited.mayConsumed⟩
    | note name kind site =>
      obtain ⟨hc, -⟩ := Context.ok_of_map_nil answered
      obtain ⟨b, found, rfl⟩ := Context.remark_ok hc
      exact h.acts rfl found (.inr rfl) fun P sited _ => sited
    | sync site =>
      cases answered
      exact h.sync _ rfl site
    | snapshot =>
      cases answered
      exact h.capture
    | restore index =>
      cases answered
      exact h.restore index
    | merge arms =>
      cases answered
      exact h.merge arms

/-- Every place that a context holds is that of a deed, whatever was done before. -/
theorem traced_run (strict : Bool) (os : List Operation) : (run strict os).Traced := by
  have start : Traced { context := .empty strict } :=
    ⟨fun _ mem => absurd mem List.not_mem_nil, fun _ mem => absurd mem List.not_mem_nil,
      fun _ mem => absurd mem List.not_mem_nil⟩
  exact List.foldlRecOn os Chronicle.step start fun _ traced o _ => traced.step o

/-! ## What findings blame -/

theorem length_newDeeds (k : Chronicle) (o : Operation) (c : Context) :
    (k.newDeeds o c).length ≤ 1 := by
  simp only [newDeeds]
  split
  · split
    · exact Nat.zero_le 1
    · rw [List.length_map]
      exact Option.length_toList_le
  · exact Nat.zero_le 1

/-- Of two accesses the first was there before the last one was added. -/
theorem head_mem_of_sublist_append {α : Type} {x y : α} {l m : List α}
    (h : [x, y].Sublist (l ++ m)) (few : m.length ≤ 1) : x ∈ l := by
  obtain ⟨l', m', split, sub, sub'⟩ := List.sublist_append_iff.mp h
  have short := sub'.length_le.trans few
  match l', split with
  | [], split =>
    rw [List.nil_append] at split
    rw [← split] at short
    exact absurd short (by simp)
  | z :: _, split =>
    obtain rfl : x = z := (List.cons.inj split).1
    exact sub.subset List.mem_cons_self

/-- A race names two deeds of its capability, the first of which was done before. -/
theorem Traced.explains_race {k' : Chronicle} (h : k'.Traced) (deeds : k'.deeds = k.deeds ++ more)
    (few : more.length ≤ 1) {b : Binding} (inside : b ∈ k'.context.table) {v : Violation}
    (race : v ∈ races b.name b.history) {s : Span} (conflict : v.conflict = some s) :
    b.name = v.binding ∧ k.Explains k'.deeds b v s := by
  obtain ⟨x, y, rfl, order, -⟩ := exists_conflict_of_mem_races race
  obtain ⟨rfl, -⟩ := Violation.earlier_of_conflict rfl conflict
  rw [(h.bindings b inside).1.history] at order
  have known {r : AccessRecord} (mem : r ∈ [x.record, y.record]) :
      r.kind = .use ∨ r.kind = .consume := by
    have conflicts := (List.mem_filter.mp (order.subset mem)).2
    cases kind : r.kind <;> simp [kind, AccessKind.conflicts] at conflicts ⊢
  have later := order.trans (List.filter_sublist (l := recordsOf k'.deeds b.id))
  refine ⟨rfl, x.record, y.record, ?_, later, rfl, rfl, known List.mem_cons_self, rfl, rfl,
    known (List.mem_cons_of_mem _ List.mem_cons_self)⟩
  rw [deeds, recordsOf_append] at later
  refine head_mem_of_sublist_append later ?_
  rw [recordsOf, List.length_map]
  exact (List.length_filter_le _ _).trans few

theorem step_ok {o : Operation} {vs : List Violation} {c : Context}
    (answered : k.answer o = .ok (vs, c)) :
    k.step o = ⟨c, k.snapshots ++ k.newSnapshots o, k.defined ++ k.newDefined o,
      k.deeds ++ k.newDeeds o c⟩ := by
  simp only [Chronicle.step, answered]

/-- What is found when a capability is accessed is the refusal of its lifecycle, or a race. -/
theorem Traced.blames_access (h : k.Traced) {o : Operation} {name : String}
    (subject : k.subjects o = (k.context.find? name).toList) {b : Binding}
    (found : k.context.find? name = some b) {vs : List Violation} {c : Context}
    (answered : k.answer o = .ok (vs, c)) {v : Violation} {life : Lifecycle} {kind : AccessKind}
    {site : Span}
    (finding : (∃ reason, b.life.refusal? b.name site reason = some v) ∨
      c = (k.context.note b life kind site).1 ∧
        c.eager (k.context.note b life kind site).2 = some v)
    {s : Span} (conflict : v.conflict = some s) : k.Blames o v s := by
  have inside := Context.mem_table_of_find? found
  refine ⟨b, by simp [subject, found], ?_⟩
  obtain ⟨reason, refused⟩ | ⟨rfl, race⟩ := finding
  · obtain ⟨kind, named, consumed⟩ := (h.bindings b inside).1.life.refusal refused conflict
    refine ⟨named.symm, ?_⟩
    rw [Explains, kind]
    exact consumed
  · -- the race is one of the history with the new record
    have noted : (k.context.note b life kind site).2 ∈
        (k.context.note b life kind site).1.table :=
      List.mem_map.mpr ⟨b, inside, if_pos rfl⟩
    have raced : v ∈ races b.name (k.context.note b life kind site).2.history := by
      simp only [Context.eager] at race
      split at race
      · exact mem_races_of_latestRace? race
      · cases race
    have traced := h.step o
    rw [step_ok answered] at traced ⊢
    exact traced.explains_race rfl (k.length_newDeeds o _) noted raced conflict

/-- A capability that is not consumed leaks against its definition. -/
theorem Traced.explains_leak (h : k.Traced) {b : Binding} (inside : b ∈ k.context.table)
    (later : List Deed) {site s : Span} (conflict : (Context.leak b site).conflict = some s) :
    k.Explains later b (Context.leak b site) s := by
  obtain ⟨rfl, -⟩ := Violation.earlier_of_conflict rfl conflict
  exact (h.bindings b inside).1.born

/-- A sweep over the table blames two deeds for each race. -/
theorem Traced.explains_sweep (h : k.Traced) {b : Binding} (inside : b ∈ k.context.table)
    {v : Violation} (race : v ∈ Context.racesOf b) {s : Span} (conflict : v.conflict = some s)
    {o : Operation} {vs : List Violation} {c : Context} (answered : k.answer o = .ok (vs, c))
    (table : c.table = k.context.table) : b.name = v.binding ∧ k.Explains (k.step o).deeds b v s := by
  have raced : v ∈ races b.name b.history := by
    simp only [Context.racesOf] at race
    split at race
    · cases race
    · exact race
  have traced := h.step o
  rw [step_ok answered] at traced ⊢
  exact traced.explains_race rfl (k.length_newDeeds o c) (table ▸ inside) raced conflict

/-- What a finding is held against is a deed, or the definition, of a capability that the
operation is about. -/
theorem Traced.blames (h : k.Traced) {o : Operation} {vs : List Violation} {c : Context}
    (answered : k.answer o = .ok (vs, c)) {v : Violation} (mem : v ∈ vs) {s : Span}
    (conflict : v.conflict = some s) : k.Blames o v s := by
  cases o with
  | exit site =>
    have table := Context.table_exit answered
    have whole := answered
    simp only [answer, Context.exit] at answered
    split at answered
    · cases answered
    next f rest frames =>
      cases answered
      have subjects : k.subjects (.exit site) = k.context.inFrame f := by simp [subjects, frames]
      rw [Blames, subjects]
      obtain leak | race := List.mem_append.mp mem
      · obtain ⟨b, inside, rfl⟩ := List.mem_map.mp leak
        have inside := List.mem_of_mem_filter inside
        exact ⟨b, inside, rfl, h.explains_leak (List.mem_of_mem_filter inside) _ conflict⟩
      · split at race
        · cases race
        · obtain ⟨b, inside, race⟩ := List.mem_flatMap.mp race
          exact ⟨b, inside, h.explains_sweep (List.mem_of_mem_filter inside) race conflict whole table⟩
  | use name site =>
    obtain ⟨b, w, found, rfl, acts⟩ := Context.accesses_use.acts_of_map answered
    exact h.blames_access rfl found answered (acts.finding v (by simpa using mem)) conflict
  | consume name site =>
    obtain ⟨b, w, found, rfl, acts⟩ := Context.accesses_consume.acts_of_map answered
    exact h.blames_access rfl found answered (acts.finding v (by simpa using mem)) conflict
  | share name site =>
    obtain ⟨b, w, found, rfl, acts⟩ := Context.accesses_share.acts_of_map answered
    exact h.blames_access rfl found answered (acts.finding v (by simpa using mem)) conflict
  | validate =>
    cases answered
    obtain ⟨b, inside, race⟩ := List.mem_flatMap.mp mem
    exact ⟨b, inside, h.explains_sweep inside race conflict rfl rfl⟩
  | enter | enterThread | enterBranch | sync | snapshot | restore | merge =>
    cases answered
    cases mem
  | exitThread | nextArm | exitBranch | define | note =>
    obtain ⟨-, rfl⟩ := Context.ok_of_map_nil answered
    cases mem

end Chronicle

end ResourceSafety.Capability
