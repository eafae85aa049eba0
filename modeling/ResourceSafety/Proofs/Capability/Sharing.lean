import ResourceSafety.Proofs.Capability.Covering
import ResourceSafety.Proofs.Capability.Scan

/-!
# Histories and what is shared

Every request adds records to the histories of open capabilities and takes none away
(`Evolves`).  A capability is shared exactly when its history says so (`Told`), also where a
branch rewinds or joins lifecycles, because a snapshot never knows more to be shared than the
context it is taken from (`Pledged`).

Two kinds of races therefore last: those of a capability whose frame is closed (`Closes`), and
those between accesses made before a capability was shared (`Suspects`).
-/

namespace ResourceSafety.Capability

/-! ## Histories -/

/-- The records of a history before the capability is shared. -/
def beforeSharing (history : List AccessRecord) : List AccessRecord :=
  history.takeWhile (·.kind != .share)

theorem beforeSharing_eq {history : List AccessRecord}
    (unshared : history.any (·.kind == .share) = false) : beforeSharing history = history := by
  induction history with
  | nil => rfl
  | cons r rest ih =>
    obtain ⟨here, there⟩ := Bool.or_eq_false_iff.mp (List.any_cons ▸ unshared)
    rw [beforeSharing, List.takeWhile_cons_of_pos (by simp [bne, here]), ← beforeSharing, ih there]

theorem beforeSharing_append (history later : List AccessRecord) :
    ∃ new, beforeSharing (history ++ later) = beforeSharing history ++ new ∧ new ⊆ later := by
  induction history with
  | nil => exact ⟨_, rfl, (List.takeWhile_sublist _).subset⟩
  | cons r rest ih =>
    obtain ⟨new, split, subset⟩ := ih
    by_cases shares : r.kind = .share
    · exact ⟨[], by simp [beforeSharing, shares], List.nil_subset _⟩
    · exact ⟨new, by simpa [beforeSharing, shares] using split, subset⟩

/-- The binding later on.  The records that it has got since are numbered from `low` to
`high`. -/
structure Binding.Grows (low high : Nat) (b b' : Binding) : Prop where
  id : b'.id = b.id
  name : b'.name = b.name
  frame : b'.frame = b.frame
  history : ∃ later, b'.history = b.history ++ later ∧ (∀ r ∈ later, low < r.seq ∧ r.seq ≤ high) ∧
    b'.life.shared = (b.life.shared || later.any (·.kind == .share))

namespace Binding.Grows

variable {low high : Nat} {b b' : Binding}

theorem refl (b : Binding) : b.Grows low high b :=
  ⟨rfl, rfl, rfl, [], by simp, by simp, by simp⟩

/-- The lifecycle alone changes, and not in what is shared. -/
theorem life {l : Lifecycle} (shared : l.shared = b.life.shared) :
    b.Grows low high { b with life := l } :=
  ⟨rfl, rfl, rfl, [], by simp, by simp, by simp [shared]⟩

/-- One record is added. -/
theorem concat {r : AccessRecord} {l : Lifecycle} (after : low < r.seq) (upTo : r.seq ≤ high)
    (shared : l.shared = (b.life.shared || r.kind == .share)) :
    b.Grows low high { b with life := l, history := b.history ++ [r] } :=
  ⟨rfl, rfl, rfl, [r], rfl, by simp [after, upTo], by simp [shared]⟩

/-- Without a new record nothing is shared anew. -/
theorem shared_eq (h : b.Grows low high b') (same : b'.history = b.history) :
    b'.life.shared = b.life.shared := by
  obtain ⟨later, history, -, shared⟩ := h.history
  obtain rfl : later = [] := by simpa [history] using same
  simpa using shared

theorem racesOf_eq (h : b.Grows low high b') (same : b'.history = b.history) :
    Context.racesOf b' = Context.racesOf b := by
  rw [Context.racesOf, Context.racesOf, h.shared_eq same, h.name, same]

/-- Races between accesses made before the capability was shared last. -/
theorem mem_races (h : b.Grows low high b') (recent : ∀ r ∈ b.history, r.seq ≤ low)
    {v : Violation} (race : v ∈ races b.name (beforeSharing b.history)) :
    v ∈ races b'.name (beforeSharing b'.history) := by
  obtain ⟨later, history, since, -⟩ := h.history
  obtain ⟨new, split, subset⟩ := beforeSharing_append b.history later
  rw [h.name, history, split]
  refine mem_races_append (fun r mr m mm => ?_) race
  exact Nat.lt_of_le_of_lt (recent r ((List.takeWhile_sublist _).subset mr)) (since m (subset mm)).1

end Binding.Grows

namespace Context

variable {c c' : Context} {v : Violation}

/-! ## Requests -/

/-- What requests leave of a context: its capabilities with more records, those of closed frames
as they are, and new capabilities without records. -/
structure Evolves (c c' : Context) : Prop where
  numbered : c.Numbered → c'.Numbered
  strict : c'.strict = c.strict
  seq : c.seq ≤ c'.seq
  frames : ∀ f ∈ c'.frames, f ∈ c.frames ∨ c.nextFrame ≤ f
  table : ∃ f new, c'.table = c.table.map f ++ new ∧
    (∀ b ∈ c.table, b.Grows c.seq c'.seq (f b) ∧
      (b.frame ∉ c.frames → (f b).history = b.history)) ∧
    ∀ b ∈ new, b.history = [] ∧ b.life.shared = false

/-- The lifecycles of a snapshot that is pledged are shared in the context too. -/
def Pledged (c : Context) (s : Snapshot) : Prop :=
  ∀ x ∈ s, x.2.shared = true → ∃ b ∈ c.table, b.id = x.1 ∧ b.life.shared = true

namespace Evolves

theorem refl (c : Context) : c.Evolves c :=
  ⟨id, rfl, Nat.le_refl _, fun _ => .inl, id, [], by simp, fun b _ => ⟨.refl b, fun _ => rfl⟩, by simp⟩

/-- The table stays as it is. -/
theorem of_table (numbered : c.Numbered → c'.Numbered) (strict : c'.strict = c.strict)
    (seq : c'.seq = c.seq) (frames : ∀ f ∈ c'.frames, f ∈ c.frames ∨ c.nextFrame ≤ f)
    (table : c'.table = c.table) : c.Evolves c' :=
  ⟨numbered, strict, (Nat.le_of_eq seq.symm), frames, id, [], by simp [table],
    fun b _ => ⟨.refl b, fun _ => rfl⟩, by simp⟩

theorem enter (c : Context) : c.Evolves c.enter := by
  refine .of_table numbered_enter rfl rfl (fun f mem => ?_) rfl
  obtain rfl | old := List.mem_cons.mp mem
  · exact .inr (Nat.le_refl _)
  · exact .inl old

theorem exit {site : Span} {found : List Violation} (h : c.exit site = .ok (found, c')) :
    c.Evolves c' := by
  have leaves := leaves_exit h
  simp only [Context.exit] at h
  split at h
  · cases h
  · cases h
    refine .of_table leaves.numbered rfl rfl (fun f mem => .inl ?_) rfl
    rw [leaves.frames] at mem
    exact List.mem_of_mem_tail mem

theorem define {name : String} {kind : CapabilityKind} {site : Span}
    (h : c.define name kind site = .ok c') : c.Evolves c' := by
  have numbered : c.Numbered → c'.Numbered := fun n => numbered_define n h
  simp only [Context.define] at h
  split at h
  · cases h
  · split at h
    · cases h
    · cases h
      exact ⟨numbered, rfl, Nat.le_refl _, fun _ => .inl, id, _,
        congrArg (· ++ _) (List.map_id _).symm, fun b _ => ⟨.refl b, fun _ => rfl⟩, by simp⟩

theorem enterThread (c : Context) (tag : ThreadTag) : c.Evolves (c.enterThread tag) :=
  .of_table (quiet_enterThread c tag).numbered rfl rfl (fun _ => .inl) rfl

theorem exitThread (h : c.exitThread = .ok c') : c.Evolves c' := by
  have quiet := quiet_exitThread h
  simp only [Context.exitThread] at h
  split at h
  · cases h
  · cases h
    exact .of_table quiet.numbered rfl rfl (fun _ => .inl) rfl

theorem sync (c : Context) (site : Span) : c.Evolves (c.sync site) := by
  refine ⟨(quiet_sync c site).numbered, rfl, Nat.le_succ _, fun _ => .inl, _, [],
    (List.append_nil _).symm, fun b _ => ?_, by simp⟩
  show b.Grows c.seq (c.seq + 1) (if _ then _ else b) ∧ (_ → (if _ then _ else b).history = _)
  split
  next open_ =>
    exact ⟨.concat (Nat.lt_succ_self _) (Nat.le_refl _) (by simp [recordNow]),
      fun closed => absurd (List.contains_iff_mem.mp open_) closed⟩
  next => exact ⟨.refl b, fun _ => rfl⟩

theorem enterBranch (c : Context) : c.Evolves c.enterBranch :=
  .of_table (quiet_enterBranch c).numbered rfl rfl (fun _ => .inl) rfl

theorem nextArm (h : c.nextArm = .ok c') : c.Evolves c' := by
  have quiet := quiet_nextArm h
  simp only [Context.nextArm] at h
  split at h
  · cases h
  · cases h
    exact .of_table quiet.numbered rfl rfl (fun _ => .inl) rfl

theorem exitBranch {site : Span} (h : c.exitBranch site = .ok c') : c.Evolves c' := by
  have quiet := quiet_exitBranch h
  simp only [Context.exitBranch] at h
  split at h
  · cases h
  next b rest _ =>
    cases h
    split at quiet
    next synced =>
      rw [if_pos synced]
      have marked := Evolves.sync { c with branches := rest } site
      exact ⟨quiet.numbered, rfl, marked.seq, marked.frames, marked.table⟩
    next open_ =>
      rw [if_neg open_]
      exact .of_table quiet.numbered rfl rfl (fun _ => .inl) rfl

/-- One capability of an open frame gets a record, and is shared by the record if at all. -/
theorem note (n : c.Numbered) {b : Binding} (mem : b ∈ c.table) (open_ : b.frame ∈ c.frames)
    {life : Lifecycle} {kind : AccessKind} {site : Span}
    (shared : life.shared = (b.life.shared || kind == .share)) :
    c.Evolves (c.note b life kind site).1 := by
  refine ⟨(adjusts_note n mem life kind site).numbered, rfl, Nat.le_succ _, fun _ => .inl, _, [],
    (List.append_nil _).symm, fun old there => ?_, by simp⟩
  by_cases same : old.id = b.id
  · obtain rfl : old = b := List.inj_on_of_nodup_map n.table there mem same
    rw [if_pos rfl]
    exact ⟨.concat (Nat.lt_succ_self _) (Nat.le_refl _) shared, fun closed => absurd open_ closed⟩
  · rw [if_neg same]
    exact ⟨.refl old, fun _ => rfl⟩

/-- Lifecycles change, and nothing is shared by that. -/
theorem mapBindings {f : Binding → Binding} (numbered : c.Numbered → (c.mapBindings f).Numbered)
    (same : ∀ b ∈ c.table, ∃ l : Lifecycle, f b = { b with life := l } ∧
      l.shared = b.life.shared) : c.Evolves (c.mapBindings f) := by
  refine ⟨numbered, rfl, Nat.le_refl _, fun _ => .inl, f, [], (List.append_nil _).symm, fun b mem => ?_,
    by simp⟩
  obtain ⟨l, changed, shared⟩ := same b mem
  rw [changed]
  exact ⟨.life shared, fun _ => rfl⟩

end Evolves

/-! ## Snapshots -/

theorem pledged_snapshot (c : Context) : c.Pledged c.snapshot := by
  intro x mem shared
  obtain ⟨b, mb, rfl⟩ := List.mem_map.mp mem
  exact ⟨b, List.mem_of_mem_filter mb, rfl, shared⟩

theorem Pledged.evolve {s : Snapshot} (h : c.Pledged s) (e : c.Evolves c') : c'.Pledged s := by
  intro x mem shared
  obtain ⟨b, mb, id, shared⟩ := h x mem shared
  obtain ⟨f, new, table, old, -⟩ := e.table
  obtain ⟨later, -, -, shared'⟩ := (old b mb).1.history
  refine ⟨f b, ?_, (old b mb).1.id.trans id, by rw [shared', shared, Bool.true_or]⟩
  rw [table]
  exact List.mem_append_left _ (List.mem_map_of_mem mb)

/-- What a pledged snapshot says to be shared is shared. -/
theorem Pledged.shared {s : Snapshot} (h : c.Pledged s) (n : c.Numbered) {b : Binding}
    (mem : b ∈ c.table) {l : Lifecycle} (known : s.lookup b.id = some l) (shared : l.shared = true) :
    b.life.shared = true := by
  obtain ⟨b', mb', id, shared'⟩ := h (b.id, l) (Cells.mem_of_lookup known) shared
  obtain rfl : b' = b := List.inj_on_of_nodup_map n.table mb' mem id
  exact shared'

theorem Evolves.restore (n : c.Numbered) {s : Snapshot} (pledged : c.Pledged s) :
    c.Evolves (c.restore s) := by
  refine .mapBindings (adjusts_restore c s).numbered fun b mem => ?_
  cases known : s.lookup b.id with
  | none => exact ⟨b.life, rfl, rfl⟩
  | some l =>
    exact ⟨_, rfl, Bool.or_eq_left_iff_imp.mpr (pledged.shared n mem known)⟩

theorem Evolves.merge (n : c.Numbered) {arms : List Snapshot}
    (pledged : ∀ s ∈ arms, c.Pledged s) : c.Evolves (c.merge arms) := by
  cases arms with
  | nil => exact .refl c
  | cons first rest =>
    refine .mapBindings (adjusts_merge c first rest).numbered fun b mem => ?_
    cases known : first.lookup b.id with
    | none => exact ⟨b.life, rfl, rfl⟩
    | some l =>
      refine ⟨_, rfl, Bool.or_eq_left_iff_imp.mpr fun shared => ?_⟩
      have joined : (l.merge (rest.filterMap (·.lookup b.id))).shared =
          (l :: rest.filterMap (·.lookup b.id)).any (·.shared) := by
        simp only [Lifecycle.merge]
        split
        · rfl
        · split <;> rfl
      obtain ⟨m, mm, said⟩ := List.any_eq_true.mp (joined ▸ shared)
      obtain rfl | later := List.mem_cons.mp mm
      · exact (pledged first List.mem_cons_self).shared n mem known said
      · obtain ⟨s, ms, known'⟩ := List.mem_filterMap.mp later
        exact (pledged s (List.mem_cons_of_mem _ ms)).shared n mem known' said

/-! ## Contexts -/

/-- The numbers are in order, the records are numbered up to the present one, and the histories
tell what is shared. -/
structure Told (c : Context) : Prop where
  numbered : c.Numbered
  recent : ∀ b ∈ c.table, ∀ r ∈ b.history, r.seq ≤ c.seq
  shared : ∀ b ∈ c.table, b.life.shared = b.history.any (·.kind == .share)

theorem told_empty (strict : Bool) : (empty strict).Told :=
  ⟨numbered_empty strict, by simp [empty], by simp [empty]⟩

theorem Told.evolve (h : c.Told) (e : c.Evolves c') : c'.Told := by
  obtain ⟨f, new, table, old, fresh⟩ := e.table
  refine ⟨e.numbered h.numbered, fun b mem r mr => ?_, fun b mem => ?_⟩
  · rw [table] at mem
    obtain mem | mem := List.mem_append.mp mem
    · obtain ⟨b, mb, rfl⟩ := List.mem_map.mp mem
      obtain ⟨later, history, since, -⟩ := (old b mb).1.history
      rw [history] at mr
      obtain before | after := List.mem_append.mp mr
      · exact Nat.le_trans (h.recent b mb r before) e.seq
      · exact (since r after).2
    · rw [(fresh b mem).1] at mr
      cases mr
  · rw [table] at mem
    obtain mem | mem := List.mem_append.mp mem
    · obtain ⟨b, mb, rfl⟩ := List.mem_map.mp mem
      obtain ⟨later, history, -, shared⟩ := (old b mb).1.history
      rw [shared, history, List.any_append, h.shared b mb]
    · rw [(fresh b mem).1, (fresh b mem).2]
      rfl

/-- A race of a capability whose frame is closed. -/
def Closes (c : Context) (v : Violation) : Prop :=
  ∃ b ∈ c.table, b.frame ∉ c.frames ∧ v ∈ racesOf b

/-- A race between accesses made before the capability was shared, if it was. -/
def Suspects (c : Context) (v : Violation) : Prop :=
  ∃ b ∈ c.table, v ∈ races b.name (beforeSharing b.history)

theorem Closes.evolve (h : c.Closes v) (told : c.Told) (e : c.Evolves c') : c'.Closes v := by
  obtain ⟨b, mem, closed, race⟩ := h
  obtain ⟨f, new, table, old, -⟩ := e.table
  obtain ⟨grows, same⟩ := old b mem
  refine ⟨f b, ?_, fun open_ => ?_, grows.racesOf_eq (same closed) ▸ race⟩
  · rw [table]
    exact List.mem_append_left _ (List.mem_map_of_mem mem)
  · -- frames that are opened later have new numbers
    rw [grows.frame] at open_
    obtain known | later := e.frames _ open_
    · exact closed known
    · have placed := told.numbered.placed (b.frame, b.cell) (List.mem_map_of_mem mem)
      exact Nat.not_lt.mpr later placed

theorem Suspects.evolve (h : c.Suspects v) (told : c.Told) (e : c.Evolves c') : c'.Suspects v := by
  obtain ⟨b, mem, race⟩ := h
  obtain ⟨f, new, table, old, -⟩ := e.table
  refine ⟨f b, ?_, (old b mem).1.mem_races (told.recent b mem) race⟩
  rw [table]
  exact List.mem_append_left _ (List.mem_map_of_mem mem)

/-- A race of a capability that is not shared is found at the end. -/
theorem mem_validate_of_closes (h : c.Closes v) : v ∈ c.validate := by
  obtain ⟨b, mem, -, race⟩ := h
  exact List.mem_flatMap.mpr ⟨b, mem, race⟩

/-- What is suspected is found at the end unless the capability is shared by then. -/
theorem Told.mem_validate_or (h : c.Told) (suspects : c.Suspects v) :
    v ∈ c.validate ∨
      ∃ b ∈ c.table, b.life.shared = true ∧ v ∈ races b.name (beforeSharing b.history) := by
  obtain ⟨b, mem, race⟩ := suspects
  cases shared : b.life.shared with
  | true => exact .inr ⟨b, mem, shared, race⟩
  | false =>
    refine .inl (List.mem_flatMap.mpr ⟨b, mem, ?_⟩)
    rw [beforeSharing_eq (h.shared b mem ▸ shared)] at race
    rwa [racesOf, shared, if_neg Bool.false_ne_true]

end Context

end ResourceSafety.Capability
