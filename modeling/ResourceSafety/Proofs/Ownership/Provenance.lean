import ResourceSafety.Proofs.Ownership.Lending
import ResourceSafety.Proofs.Violation

/-!
# Where the conflicts of bindings come from

A finding about a binding names an earlier span.  That span was copied from a record, and
records travel: they are captured, rewound and joined, in any order.  Here every span that a
record holds is traced to the event that put it there.

A *chronicle* is a run of operations on a tracker, with the snapshots taken so far and the
deeds, which are the accesses that broke no rule.  The deeds are written down from the answers
of the tracker, and the histories of the tracker are not consulted.

A record is *sited* when its move site and its borrows are places of deeds of its binding
(`Record.Sited`).  Accesses put the place of a deed into a record, and joins only choose among
the places of their arms.  So every record of the tracker and of every snapshot is sited
(`Chronicle.traced_run`), and a finding, whose conflict is read off a record, blames a deed of
the same binding (`Chronicle.blames_of_answer`).
-/

namespace ResourceSafety.Ownership

/-! ## Records -/

/-- The events that a finding can be held against. -/
def EventKind.Explains (v : Violation) (kind : EventKind) : Prop :=
  match v.kind with
  | .useAfterMove | .doubleMove => kind = .move
  | .borrowAfterMove =>
    if v.reason = "moved while borrowed" then kind = .borrow ∨ kind = .borrowMut
    else kind = .move
  | .borrowExclusivity => kind = .borrow ∨ kind = .borrowMut
  | _ => False

/-- The places that a record holds are those of events. -/
structure Record.Sited (E : Event → Prop) (r : Record) : Prop where
  move : r.movedAt.isZero = false → E ⟨.move, r.movedAt⟩
  shared : ∀ s ∈ r.shared, E ⟨.borrow, s⟩
  mutable : ∀ s, r.mutable = some s → E ⟨.borrowMut, s⟩

namespace Record

variable {E E' : Event → Prop} {r other : Record}

@[simp] theorem movedAt_settle (r : Record) : r.settle.movedAt = r.movedAt := by
  simp only [settle]
  split <;> rfl

/-- The remark on a value that may be gone is not the one on a borrowed value. -/
theorem doubt_ne (r : Record) : r.doubt ≠ "moved while borrowed" := by
  simp only [doubt]
  split <;> decide

/-- A join keeps the move site that was set first, and its borrows are those of the arms. -/
theorem sites_join (r other : Record) :
    (r.join other).movedAt = (if r.movedAt.isZero then other.movedAt else r.movedAt) ∧
      (∀ s ∈ (r.join other).shared, s ∈ r.shared ∨ s ∈ other.shared) ∧
      ∀ s, (r.join other).mutable = some s → r.mutable = some s ∨ other.mutable = some s := by
  obtain ⟨-, torn⟩ | ⟨-, moved⟩ | ⟨-, -, there⟩ := join_cases r other
  · rw [torn]
    exact ⟨rfl, fun s mem => absurd mem List.not_mem_nil, nofun⟩
  · rw [moved]
    exact ⟨rfl, fun s mem => .inl mem, fun s held => .inl held⟩
  · rw [there]
    refine ⟨by simp, fun s mem => ?_, fun s held => ?_⟩
    · rw [shared_settle, mem_addSpans] at mem
      exact mem
    · cases here : r.mutable <;> simp_all

namespace Sited

theorem start (E : Event → Prop) : Sited E {} :=
  ⟨fun set => absurd set (by decide), fun _ mem => absurd mem List.not_mem_nil, nofun⟩

theorem mono (h : r.Sited E) (more : ∀ e, E e → E' e) : r.Sited E' :=
  ⟨fun set => more _ (h.move set), fun s mem => more _ (h.shared s mem),
    fun s held => more _ (h.mutable s held)⟩

/-- An access puts its own place into the record. -/
theorem after (h : r.Sited E) {site : Span} {a : Access} (done : E ⟨.ofAccess a, site⟩) :
    (r.after site a).Sited E := by
  cases a with
  | read => exact h
  | move => exact ⟨fun _ => done, h.shared, h.mutable⟩
  | borrow exclusive =>
    cases exclusive with
    | true =>
      refine ⟨by simpa [Record.after] using h.move, by simpa [Record.after] using h.shared, ?_⟩
      intro s held
      rw [Record.after, mutable_settle, mutable_taken, Option.some.injEq] at held
      exact held ▸ done
    | false =>
      refine ⟨by simpa [Record.after] using h.move, ?_, by simpa [Record.after] using h.mutable⟩
      intro s mem
      rw [Record.after, shared_settle, List.mem_append, List.mem_singleton] at mem
      obtain old | rfl := mem
      · exact h.shared s old
      · exact done

theorem release (h : r.Sited E) {r' : Record} (ended : r.release? = some r') : r'.Sited E := by
  obtain ⟨none, shared, -⟩ := released ended
  have moved : r'.movedAt = r.movedAt := by
    simp only [release?] at ended
    split at ended
    · cases ended
      exact movedAt_settle _
    · split at ended
      · cases ended
      · cases ended
        exact movedAt_settle _
  have fewer : r'.shared ⊆ r.shared := by
    rw [shared]
    split
    · exact List.Subset.refl _
    · exact (List.dropLast_sublist _).subset
  refine ⟨moved ▸ h.move, fun s mem => h.shared s (fewer mem), fun s held => ?_⟩
  rw [none] at held
  cases held

theorem join (h : r.Sited E) (h' : other.Sited E) : (r.join other).Sited E := by
  obtain ⟨moved, shared, mutable⟩ := sites_join r other
  refine ⟨fun set => ?_, fun s mem => ?_, fun s held => ?_⟩
  · rw [moved] at set ⊢
    split
    next unset =>
      rw [if_pos unset] at set
      exact h'.move set
    next unset => exact h.move (by simpa using unset)
  · exact (shared s mem).elim (h.shared s) (h'.shared s)
  · exact (mutable s held).elim (h.mutable s) (h'.mutable s)

/-- The borrow that a move runs into was taken. -/
theorem latestBorrow (h : r.Sited E) (set : r.latestBorrow.isZero = false) :
    E ⟨.borrow, r.latestBorrow⟩ ∨ E ⟨.borrowMut, r.latestBorrow⟩ := by
  simp only [Record.latestBorrow] at set ⊢
  cases held : r.mutable with
  | some s => exact .inr (h.mutable s held)
  | none =>
    rw [held] at set
    cases last : r.shared.getLast? with
    | none => simp [last, Span.isZero] at set
    | some s => exact .inl (h.shared s (List.mem_of_getLast? last))

/-- A refusal blames an event that put its place into the record. -/
theorem refusal (h : r.Sited E) {name : String} {site s : Span} {a : Access} {v : Violation}
    (refused : r.refusal? name site a = some v) (conflict : v.conflict = some s) :
    v.binding = name ∧ ∃ kind, E ⟨kind, s⟩ ∧ kind.Explains v := by
  cases a with
  | read =>
    simp only [refusal?] at refused
    split at refused
    · cases refused
    · cases refused
      obtain ⟨rfl, set⟩ := Violation.earlier_of_conflict rfl conflict
      exact ⟨rfl, .move, h.move set, rfl⟩
  | move =>
    simp only [refusal?] at refused
    split at refused
    · cases refused
    iterate 2
      · cases refused
        obtain ⟨rfl, set⟩ := Violation.earlier_of_conflict rfl conflict
        refine ⟨rfl, ?_⟩
        obtain shared | mutable := h.latestBorrow set
        · exact ⟨_, shared, .inl rfl⟩
        · exact ⟨_, mutable, .inr rfl⟩
    iterate 2
      · cases refused
        obtain ⟨rfl, set⟩ := Violation.earlier_of_conflict rfl conflict
        exact ⟨rfl, .move, h.move set, rfl⟩
  | borrow exclusive =>
    simp only [refusal?] at refused
    split at refused
    · cases refused
      obtain ⟨rfl, set⟩ := Violation.earlier_of_conflict rfl conflict
      refine ⟨rfl, .move, h.move set, ?_⟩
      simp [EventKind.Explains, Violation.against, r.doubt_ne]
    · split at refused
      next held =>
        cases refused
        obtain ⟨rfl, -⟩ := Violation.earlier_of_conflict rfl conflict
        exact ⟨rfl, .borrowMut, h.mutable _ held, .inr rfl⟩
      next some =>
        split at refused
        · cases refused
          obtain ⟨rfl, -⟩ := Violation.earlier_of_conflict rfl conflict
          exact ⟨rfl, .borrow, h.shared _ (by rw [some]; exact List.mem_cons_self), .inl rfl⟩
        · cases refused
      · cases refused

end Sited

end Record

namespace Tracker

theorem bindings_mapBindings (t : Tracker) (f : Binding → Binding) :
    (t.mapBindings f).bindings = t.bindings.map f := by
  simp [bindings, scopes, mapBindings, List.map_flatten]

end Tracker

/-! ## Chronicles -/

/-- An operation on a tracker.  Snapshots go by the order in which they were taken. -/
inductive Operation
  | enter
  | exit
  | define (name : String) (site : Span)
  | access (a : Access) (name : String) (site : Span)
  | release (name : String) (site : Span)
  | snapshot
  | restore (index : Nat)
  | merge (site : Span) (arms : List Nat)
deriving Repr, DecidableEq

/-- A tracker that was worked with, the snapshots taken so far, and the accesses that broke no
rule, each with the number of its binding. -/
structure Chronicle where
  /-- The tracker. -/
  tracker : Tracker := {}
  /-- The snapshots, oldest first. -/
  snapshots : List Snapshot := []
  /-- The accesses that broke no rule, oldest first. -/
  deeds : List (Nat × Event) := []
deriving Repr, DecidableEq

namespace Chronicle

/-- The snapshot with a number.  One that was never taken knows no binding. -/
def taken (k : Chronicle) (index : Nat) : Snapshot := k.snapshots[index]?.getD []

/-- What the tracker answers to an operation, and the tracker after it. -/
def answer (k : Chronicle) : Operation → Except Fault (Option Violation × Tracker)
  | .enter => .ok (none, k.tracker.enter)
  | .exit => k.tracker.exit.map (none, ·)
  | .define name site => (k.tracker.define name site).map (none, ·)
  | .access a name site => k.tracker.access a name site
  | .release name site => (k.tracker.release name site).map (none, ·)
  | .snapshot => .ok (none, k.tracker)
  | .restore index => .ok (none, k.tracker.restore (k.taken index))
  | .merge site arms => .ok (none, k.tracker.merge site (arms.map k.taken))

/-- The deed of an operation: an access that is answered without a finding. -/
def newDeeds (k : Chronicle) : Operation → Option Violation → List (Nat × Event)
  | .access a name site, none =>
    (k.tracker.find? name).toList.map fun b => (b.id, ⟨.ofAccess a, site⟩)
  | _, _ => []

/-- The snapshot that an operation takes. -/
def newSnapshots (k : Chronicle) : Operation → List Snapshot
  | .snapshot => [k.tracker.snapshot]
  | _ => []

/-- The chronicle after one more operation.  One that is refused is not part of it. -/
def step (k : Chronicle) (o : Operation) : Chronicle :=
  match k.answer o with
  | .error _ => k
  | .ok (v, t) =>
    { tracker := t
      snapshots := k.snapshots ++ k.newSnapshots o
      deeds := k.deeds ++ k.newDeeds o v }

/-- The chronicle of operations on a new tracker. -/
def run (os : List Operation) : Chronicle := os.foldl step {}

/-- What an operation makes of a chronicle, one case for each operation that is not refused. -/
inductive Yields (k : Chronicle) : Operation → Chronicle → Prop
  | refused (o : Operation) : Yields k o k
  | enter : Yields k .enter ⟨k.tracker.enter, k.snapshots ++ [], k.deeds ++ []⟩
  | exit {t : Tracker} : k.tracker.exit = .ok t →
      Yields k .exit ⟨t, k.snapshots ++ [], k.deeds ++ []⟩
  | define {name : String} {site : Span} {t : Tracker} : k.tracker.define name site = .ok t →
      Yields k (.define name site) ⟨t, k.snapshots ++ [], k.deeds ++ []⟩
  | access {a : Access} {name : String} {site : Span} {v : Option Violation} {t : Tracker} :
      k.tracker.access a name site = .ok (v, t) → Yields k (.access a name site)
        ⟨t, k.snapshots ++ [], k.deeds ++ k.newDeeds (.access a name site) v⟩
  | release {name : String} {site : Span} {t : Tracker} : k.tracker.release name site = .ok t →
      Yields k (.release name site) ⟨t, k.snapshots ++ [], k.deeds ++ []⟩
  | snapshot : Yields k .snapshot ⟨k.tracker, k.snapshots ++ [k.tracker.snapshot], k.deeds ++ []⟩
  | restore (index : Nat) : Yields k (.restore index)
      ⟨k.tracker.restore (k.taken index), k.snapshots ++ [], k.deeds ++ []⟩
  | merge (site : Span) (arms : List Nat) : Yields k (.merge site arms)
      ⟨k.tracker.merge site (arms.map k.taken), k.snapshots ++ [], k.deeds ++ []⟩

theorem yields_step (k : Chronicle) (o : Operation) : k.Yields o (k.step o) := by
  simp only [step]
  split
  · exact .refused o
  next v t answered =>
    cases o with
    | enter | snapshot | restore | merge =>
      cases answered
      constructor
    | access a name site => exact .access answered
    | exit | define | release =>
      obtain ⟨t, ht, same⟩ := exists_of_map_ok answered
      cases same
      constructor
      exact ht

/-- The finding blames, with the span `s`, a deed of the binding that it names. -/
def Blames (k : Chronicle) (v : Violation) (s : Span) : Prop :=
  ∃ b kind, k.tracker.find? v.binding = some b ∧ (b.id, ⟨kind, s⟩) ∈ k.deeds ∧
    ⟨kind, s⟩ ∈ b.history ∧ kind.Explains v

/-! ## The trace of every place -/

/-- The record of a binding holds places of its deeds, and its history has all of them. -/
structure Owns (deeds : List (Nat × Event)) (b : Binding) : Prop where
  record : b.record.Sited fun e => (b.id, e) ∈ deeds
  history : ∀ e, (b.id, e) ∈ deeds → e ∈ b.history

/-- Every place that the tracker and the snapshots hold is traced to a deed. -/
structure Traced (k : Chronicle) : Prop where
  numbered : ∀ d ∈ k.deeds, d.1 < k.tracker.next
  bindings : ∀ b ∈ k.tracker.bindings, Owns k.deeds b ∧ b.id < k.tracker.next
  snapshots : ∀ s ∈ k.snapshots, ∀ p ∈ s, p.2.Sited fun e => (p.1, e) ∈ k.deeds

variable {k : Chronicle} {deeds more : List (Nat × Event)}

/-- Deeds of other bindings change nothing. -/
theorem Owns.others {b : Binding} (h : Owns deeds b) (apart : ∀ d ∈ more, d.1 ≠ b.id) :
    Owns (deeds ++ more) b where
  record := h.record.mono fun _ did => List.mem_append_left _ did
  history e did := by
    obtain old | new := List.mem_append.mp did
    · exact h.history e old
    · exact absurd rfl (apart _ new)

/-- An operation keeps the trace when it keeps it for every binding. -/
theorem Traced.extend (h : k.Traced) {t : Tracker} {taken : List Snapshot}
    (next : k.tracker.next ≤ t.next) (numbered : ∀ d ∈ more, d.1 < t.next)
    (bindings : ∀ b ∈ t.bindings, Owns (k.deeds ++ more) b ∧ b.id < t.next)
    (snapshots : ∀ s ∈ taken, ∀ p ∈ s, p.2.Sited fun e => (p.1, e) ∈ k.deeds) :
    Traced ⟨t, k.snapshots ++ taken, k.deeds ++ more⟩ where
  numbered d mem := by
    obtain old | new := List.mem_append.mp mem
    · exact (h.numbered d old).trans_le next
    · exact numbered d new
  bindings := bindings
  snapshots s mem p inside := by
    have known : p.2.Sited fun e => (p.1, e) ∈ k.deeds := by
      obtain old | new := List.mem_append.mp mem
      · exact h.snapshots s old p inside
      · exact snapshots s new p inside
    exact known.mono fun _ did => List.mem_append_left _ did

/-- An operation that is no deed and takes no snapshot. -/
theorem Traced.quiet (h : k.Traced) {t : Tracker} (next : k.tracker.next ≤ t.next)
    (bindings : ∀ b ∈ t.bindings, Owns k.deeds b ∧ b.id < t.next) :
    Traced ⟨t, k.snapshots ++ [], k.deeds ++ []⟩ :=
  h.extend next (fun _ mem => absurd mem List.not_mem_nil) (by simpa using bindings)
    (fun _ mem => absurd mem List.not_mem_nil)

/-- Every record is replaced by one that is sited among the same deeds, and no history gets
shorter. -/
theorem Traced.remap (h : k.Traced) {f : Binding → Binding}
    (keeps : ∀ b ∈ k.tracker.bindings, (f b).id = b.id ∧ b.history ⊆ (f b).history ∧
      (f b).record.Sited fun e => (b.id, e) ∈ k.deeds) :
    Traced ⟨k.tracker.mapBindings f, k.snapshots ++ [], k.deeds ++ []⟩ := by
  refine h.quiet (Nat.le_refl _) fun b' mem => ?_
  rw [Tracker.bindings_mapBindings] at mem
  obtain ⟨b, inside, rfl⟩ := List.mem_map.mp mem
  obtain ⟨id, history, sited⟩ := keeps b inside
  obtain ⟨owns, below⟩ := h.bindings b inside
  exact ⟨⟨id ▸ sited, fun e did => history (owns.history e (id ▸ did))⟩, id ▸ below⟩

/-- One binding gets a new record and one more event. -/
theorem Traced.put (h : k.Traced) {b : Binding} (inside : b ∈ k.tracker.bindings) {r : Record}
    {kind : EventKind} {site : Span} (own : ∀ d ∈ more, d = (b.id, ⟨kind, site⟩))
    (sited : r.Sited fun e => (b.id, e) ∈ k.deeds ++ more) :
    Traced ⟨k.tracker.put (b.advance r kind site), k.snapshots ++ [], k.deeds ++ more⟩ := by
  obtain ⟨owns, below⟩ := h.bindings b inside
  refine h.extend (Nat.le_refl _) (fun d mem => own d mem ▸ below) (fun b' mem => ?_)
    (fun _ mem => absurd mem List.not_mem_nil)
  rw [Tracker.put, Tracker.bindings_mapBindings] at mem
  obtain ⟨x, known, rfl⟩ := List.mem_map.mp mem
  split
  next same =>
    refine ⟨⟨sited, fun e did => ?_⟩, below⟩
    show e ∈ b.history ++ [⟨kind, site⟩]
    obtain old | new := List.mem_append.mp did
    · exact List.mem_append_left _ (owns.history e old)
    · have last : e = ⟨kind, site⟩ := congrArg Prod.snd (own _ new)
      exact List.mem_append_right _ (List.mem_singleton.mpr last)
  next other =>
    obtain ⟨owns', below'⟩ := h.bindings x known
    exact ⟨owns'.others fun d mem same => other (by rw [← same, own d mem]; rfl), below'⟩

theorem Traced.exit (h : k.Traced) {t : Tracker} (ht : k.tracker.exit = .ok t) :
    Traced ⟨t, k.snapshots ++ [], k.deeds ++ []⟩ := by
  have next := (Tracker.exit_cases ht).2
  refine h.quiet next.ge fun b mem => ?_
  rw [next]
  exact h.bindings b (Tracker.mem_bindings_of_exit ht mem)

theorem Traced.define (h : k.Traced) {name : String} {site : Span} {t : Tracker}
    (ht : k.tracker.define name site = .ok t) :
    Traced ⟨t, k.snapshots ++ [], k.deeds ++ []⟩ := by
  have next := (Tracker.define_cases ht).2.1
  refine h.quiet (by rw [next]; exact Nat.le_succ _) fun b mem => ?_
  rw [next]
  obtain old | rfl := Tracker.mem_bindings_of_define ht mem
  · obtain ⟨owns, below⟩ := h.bindings b old
    exact ⟨owns, Nat.lt_succ_of_lt below⟩
  · -- the number of the new binding is not that of any deed
    refine ⟨⟨.start _, fun e did => ?_⟩, Nat.lt_succ_self _⟩
    exact absurd (h.numbered _ did) (Nat.lt_irrefl _)

theorem Traced.access (h : k.Traced) {a : Access} {name : String} {site : Span}
    {v : Option Violation} {t : Tracker} (ht : k.tracker.access a name site = .ok (v, t)) :
    Traced ⟨t, k.snapshots ++ [], k.deeds ++ k.newDeeds (.access a name site) v⟩ := by
  obtain ⟨b, found, hv, rfl⟩ := Tracker.access_cases ht
  have inside := List.mem_of_find?_eq_some found
  cases v with
  | some w => exact h.quiet (Nat.le_refl _) h.bindings
  | none =>
    have new : k.newDeeds (.access a name site) none = [(b.id, ⟨.ofAccess a, site⟩)] := by
      simp [newDeeds, found]
    rw [new]
    refine h.put inside (fun d mem => List.mem_singleton.mp mem) ?_
    refine Record.Sited.after ((h.bindings b inside).1.record.mono fun _ did => ?_) ?_
    · exact List.mem_append_left _ did
    · exact List.mem_append_right _ (List.mem_singleton.mpr rfl)

theorem Traced.release (h : k.Traced) {name : String} {site : Span} {t : Tracker}
    (ht : k.tracker.release name site = .ok t) :
    Traced ⟨t, k.snapshots ++ [], k.deeds ++ []⟩ := by
  obtain ⟨b, r, found, ended, rfl⟩ := Tracker.release_cases ht
  have inside := List.mem_of_find?_eq_some found
  refine h.put inside (fun d mem => absurd mem List.not_mem_nil) ?_
  rw [List.append_nil]
  exact (h.bindings b inside).1.record.release ended

theorem Traced.capture (h : k.Traced) :
    Traced ⟨k.tracker, k.snapshots ++ [k.tracker.snapshot], k.deeds ++ []⟩ := by
  refine h.extend (Nat.le_refl _) (fun _ mem => absurd mem List.not_mem_nil)
    (by simpa using h.bindings) fun s mem p inside => ?_
  rw [List.mem_singleton] at mem
  subst mem
  obtain ⟨b, known, rfl⟩ := List.mem_map.mp inside
  exact (h.bindings b known).1.record

theorem Traced.taken (h : k.Traced) (index : Nat) :
    ∀ id r, (k.taken index).lookup id = some r → r.Sited fun e => (id, e) ∈ k.deeds := by
  intro id r look
  obtain ⟨s, ms, mem⟩ := Cells.exists_of_mem_getD (Cells.mem_of_lookup look)
  exact h.snapshots s ms _ mem

theorem Traced.restore (h : k.Traced) (index : Nat) :
    Traced ⟨k.tracker.restore (k.taken index), k.snapshots ++ [], k.deeds ++ []⟩ := by
  refine h.remap fun b inside => ?_
  cases look : (k.taken index).lookup b.id with
  | none => exact ⟨rfl, List.Subset.refl _, (h.bindings b inside).1.record⟩
  | some r => exact ⟨rfl, List.Subset.refl _, h.taken index _ _ look⟩

theorem Traced.merge (h : k.Traced) (site : Span) (arms : List Nat) :
    Traced ⟨k.tracker.merge site (arms.map k.taken), k.snapshots ++ [], k.deeds ++ []⟩ := by
  cases arms with
  | nil => exact h.quiet (Nat.le_refl _) h.bindings
  | cons first rest =>
    refine h.remap fun b inside => ?_
    cases look : (k.taken first).lookup b.id with
    | none => exact ⟨rfl, List.Subset.refl _, (h.bindings b inside).1.record⟩
    | some r =>
      have sited : (Tracker.mergeRecord b.id r (rest.map k.taken)).1.Sited fun e =>
          (b.id, e) ∈ k.deeds := by
        refine Tracker.mergeRecord_of_join (fun _ _ => .join) (h.taken first _ _ look)
          fun arm mem x look' => ?_
        obtain ⟨index, -, rfl⟩ := List.mem_map.mp mem
        exact h.taken index _ _ look'
      rcases merged : Tracker.mergeRecord b.id r (rest.map k.taken) with ⟨met, alike⟩
      rw [merged] at sited
      cases alike with
      | true => simpa [merged] using sited
      | false => simpa [merged, Binding.advance] using sited

/-- Every operation keeps the trace. -/
theorem Traced.yields (h : k.Traced) {o : Operation} {k' : Chronicle} (yields : k.Yields o k') :
    k'.Traced := by
  cases yields with
  | refused => exact h
  | enter => exact h.quiet (Nat.le_refl _) h.bindings
  | exit ht => exact h.exit ht
  | define ht => exact h.define ht
  | access answered => exact h.access answered
  | release ht => exact h.release ht
  | snapshot => exact h.capture
  | restore index => exact h.restore index
  | merge site arms => exact h.merge site arms

/-- Every place that a tracker holds is that of a deed, whatever was done before. -/
theorem traced_run (os : List Operation) : (run os).Traced := by
  have start : Traced {} := ⟨fun _ mem => absurd mem List.not_mem_nil,
    fun _ mem => absurd mem (by simp [Tracker.bindings, Tracker.scopes]),
    fun _ mem => absurd mem List.not_mem_nil⟩
  exact List.foldlRecOn os Chronicle.step start fun k traced o _ =>
    traced.yields (k.yields_step o)

/-- What a finding is held against is a deed of the binding that it names. -/
theorem Traced.blames (h : k.Traced) {o : Operation} {v : Violation} {t : Tracker}
    (answered : k.answer o = .ok (some v, t)) {s : Span} (conflict : v.conflict = some s) :
    k.Blames v s := by
  cases o with
  | access a name site =>
    obtain ⟨b, found, refused, -⟩ := Tracker.access_cases answered
    obtain ⟨owns, -⟩ := h.bindings b (List.mem_of_find?_eq_some found)
    obtain ⟨named, kind, did, explains⟩ := owns.record.refusal refused.symm conflict
    exact ⟨b, kind, named ▸ found, did, owns.history _ did, explains⟩
  | enter | snapshot | restore | merge => cases answered
  | exit | define | release =>
    obtain ⟨t, -, same⟩ := exists_of_map_ok answered
    cases same

end Chronicle

end ResourceSafety.Ownership
