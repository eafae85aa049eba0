import ResourceSafety.Proofs.Capability.Requests
import ResourceSafety.Proofs.Capability.Scan

/-!
# Contexts of one thread

A program without thread regions makes all its accesses on the main thread, and no history has a
race.  Then only the lifecycles matter.

A lifecycle remembers a consuming site exactly while it is consumed, as long as it comes from
accesses and from joins.  With this a join loses nothing: where arms meet, a capability is free
if it is free at the end of each arm (`Lifecycle.free_merge`), and consumed if it is consumed at
the end of each (`Lifecycle.consumed_merge`).
-/

namespace ResourceSafety.Capability

namespace Lifecycle

variable {l first : Lifecycle} {rest : List Lifecycle}

/-- A consuming site belongs to a consumed capability. -/
def Dated (l : Lifecycle) : Prop := l.consumedAt ≠ .zero → l.state = .consumed

theorem dated_start : Dated {} := fun set => absurd rfl set

theorem Dated.consumedAt_eq_zero (h : l.Dated) (alive : l.state ≠ .consumed) :
    l.consumedAt = .zero :=
  by_contra fun set => alive (h set)

theorem Dated.rewind (h : l.Dated) (now : Lifecycle) : (now.rewind l).Dated := h

theorem firstSite_eq_zero {sites : List Span} (h : ∀ s ∈ sites, s = .zero) :
    firstSite sites = .zero :=
  by_contra fun set => by
    cases found : sites.find? (!·.isZero) with
    | none => simp [firstSite, found] at set
    | some s =>
      simp only [firstSite, found, Option.getD_some] at set
      exact set (h s (List.mem_of_find?_eq_some found))

theorem dated_merge (h : ∀ l ∈ first :: rest, l.Dated) : (first.merge rest).Dated := by
  simp only [merge]
  split
  · exact fun _ => rfl
  · split
    · exact fun set => absurd rfl set
    next untouched =>
      intro set
      refine absurd (firstSite_eq_zero fun s mem => ?_) set
      obtain ⟨l, ml, rfl⟩ := List.mem_map.mp mem
      rw [Bool.not_eq_true, List.any_eq_false] at untouched
      have fresh : l.state = .fresh := by simpa using untouched l ml
      exact (h l ml).consumedAt_eq_zero (by simp [fresh])

/-- Where arms meet, a capability is free if it is free at the end of each. -/
theorem free_merge (dated : ∀ l ∈ first :: rest, l.Dated) (free : ∀ l ∈ first :: rest, l.Free) :
    (first.merge rest).Free := by
  have consumed : firstSite ((first :: rest).map (·.consumedAt)) = .zero := by
    refine firstSite_eq_zero fun s mem => ?_
    obtain ⟨l, ml, rfl⟩ := List.mem_map.mp mem
    exact (dated l ml).consumedAt_eq_zero (free l ml).1
  have possible : firstSite ((first :: rest).map (·.mayConsumedAt)) = .zero := by
    refine firstSite_eq_zero fun s mem => ?_
    obtain ⟨l, ml, rfl⟩ := List.mem_map.mp mem
    exact (free l ml).2
  simp only [merge]
  split
  next every =>
    have spent : first.state = .consumed := by
      simpa using List.all_eq_true.mp every first List.mem_cons_self
    exact absurd spent (free first List.mem_cons_self).1
  next =>
    split
    · refine ⟨by simp, ?_⟩
      show (if (firstSite _).isZero = true then _ else _) = Span.zero
      rw [possible, consumed]
      rfl
    · exact ⟨by simp, possible⟩

/-- Where arms meet, a capability is consumed if it is consumed at the end of each. -/
theorem consumed_merge (h : ∀ l ∈ first :: rest, l.state = .consumed) :
    (first.merge rest).state = .consumed := by
  have every : (first :: rest).all (·.state == .consumed) = true := by
    rw [List.all_eq_true]
    exact fun l ml => beq_iff_eq.mpr (h l ml)
  simp only [merge, every, if_true]

/-- What a step makes of a free lifecycle does not depend on which one it is. -/
structure Uniform (step : Lifecycle → Lifecycle) : Prop where
  dated {l : Lifecycle} : l.state ≠ .consumed → l.Dated → (step l).Dated
  free {l k : Lifecycle} : l.Free → k.Free → (step k).Free → (step l).Free
  consumed {l k : Lifecycle} : l.Free → k.Free → (step k).state = .consumed →
    (step l).state = .consumed

theorem uniform_use : Uniform fun l => { l with state := .inUse } where
  dated alive dated set := absurd (dated set) alive
  free h _ _ := ⟨nofun, h.2⟩
  consumed _ _ h := h

theorem uniform_share : Uniform fun l => { l with shared := true } where
  dated _ dated := dated
  free h _ _ := h
  consumed _ h consumed := absurd consumed h.1

theorem uniform_consume (site : Span) : Uniform (·.consume site) where
  dated _ _ _ := rfl
  free _ _ h := h
  consumed _ _ h := h

end Lifecycle

/-- The main thread made all records, and a consuming site belongs to a consumption. -/
structure Binding.Simple (b : Binding) : Prop where
  life : b.life.Dated
  history : ∀ r ∈ b.history, r.thread = mainThread

namespace Context

/-- There is no thread region, and every capability is simple. -/
structure Simple (c : Context) : Prop where
  thread : c.thread = mainThread
  table : ∀ b ∈ c.table, b.Simple

variable {c c' : Context} {y : Binding}

/-! ## No races -/

/-- Records of one thread do not conflict. -/
theorem races_eq_nil {name : String} {history : List AccessRecord}
    (h : ∀ r ∈ history, r.thread = mainThread) : races name history = [] := by
  refine List.eq_nil_iff_forall_not_mem.mpr fun v mem => ?_
  obtain ⟨a, b, -, order, conflict⟩ := exists_conflict_of_mem_races mem
  have known : ∀ r ∈ [a.record, b.record], r.thread = mainThread := fun r mem =>
    h r (List.mem_of_mem_filter (order.subset mem))
  have first := known a.record (by simp)
  have second := known b.record (by simp)
  simp [Capability.conflict, first, second] at conflict

theorem Simple.racesOf_eq_nil (h : c.Simple) (mem : y ∈ c.table) : racesOf y = [] := by
  rw [racesOf]
  split
  · rfl
  · exact races_eq_nil (h.table y mem).history

theorem Simple.validate_eq_nil (h : c.Simple) : c.validate = [] :=
  List.flatMap_eq_nil_iff.mpr fun _ mem => h.racesOf_eq_nil mem

theorem eager_eq_none (h : y.Simple) : c.eager y = none := by
  rw [eager]
  split
  · cases race : latestRace? y.name y.history with
    | none => rfl
    | some v =>
      have mem := mem_races_of_latestRace? race
      rw [races_eq_nil h.history] at mem
      cases mem
  · rfl

/-! ## Requests -/

namespace Simple

theorem mapBindings (h : c.Simple) {f : Binding → Binding}
    (keeps : ∀ b ∈ c.table, b.Simple → (f b).Simple) : (c.mapBindings f).Simple := by
  refine ⟨h.thread, fun b mem => ?_⟩
  obtain ⟨old, mo, rfl⟩ := List.mem_map.mp mem
  exact keeps old mo (h.table old mo)

theorem recorded (h : c.Simple) (mem : y ∈ c.table) {life : Lifecycle} (dated : life.Dated)
    (kind : AccessKind) (site : Span) : (c.note y life kind site).2.Simple := by
  refine ⟨dated, fun r mr => ?_⟩
  obtain old | new := List.mem_append.mp mr
  · exact (h.table y mem).history r old
  · rw [List.mem_singleton.mp new]
    exact h.thread

theorem note (h : c.Simple) (mem : y ∈ c.table) {life : Lifecycle} (dated : life.Dated)
    (kind : AccessKind) (site : Span) : (c.note y life kind site).1.Simple := by
  have counted : Simple { c with seq := c.seq + 1 } := ⟨h.thread, h.table⟩
  refine counted.mapBindings fun b _ simple => ?_
  split
  · exact h.recorded mem dated kind site
  · exact simple

theorem acts (h : c.Simple) {step : Lifecycle → Lifecycle} (uniform : Lifecycle.Uniform step)
    {kind : AccessKind} {site : Span} {w : Option Violation} (acts : c.Acts y step kind site w c')
    (mem : y ∈ c.table) : c'.Simple := by
  obtain rfl | ⟨alive, rfl⟩ := acts.changed
  · exact h
  · exact h.note mem (uniform.dated alive (h.table y mem).life) kind site

/-- An access is reported exactly if the capability is not free. -/
theorem reported_iff (h : c.Simple) {step : Lifecycle → Lifecycle}
    (uniform : Lifecycle.Uniform step) {kind : AccessKind} {site : Span} {w : Option Violation}
    (acts : c.Acts y step kind site w c') (mem : y ∈ c.table) : w.isSome ↔ ¬y.life.Free := by
  refine ⟨fun some free => ?_, acts.refused⟩
  obtain ⟨-, answer⟩ := acts.accepted free
  have dated := uniform.dated free.1 (h.table y mem).life
  rw [answer, eager_eq_none (h.recorded mem dated kind site)] at some
  simp at some

theorem remarked (h : c.Simple) (remarked : c.Remarked c') : c'.Simple := by
  obtain rfl | ⟨name, kind, site, noted⟩ := remarked
  · exact h
  · obtain ⟨b, found, rfl⟩ := remark_ok noted
    have mem := mem_table_of_find? found
    exact h.note mem (h.table b mem).life kind site

theorem enter (h : c.Simple) : c.enter.Simple := ⟨h.thread, h.table⟩

theorem leaves (h : c.Simple) {found : List Violation} (leaves : c.Leaves found c') :
    c'.Simple :=
  ⟨leaves.thread.trans h.thread, leaves.table ▸ h.table⟩

/-- A frame that is closed without a finding leaks nothing, and conversely. -/
theorem silent_iff (h : c.Simple) {found : List Violation} (leaves : c.Leaves found c') :
    found = [] ↔ ∀ x ∈ c.cells.headD [], x.value.state = .consumed := by
  refine ⟨leaves.silent, fun consumed => ?_⟩
  refine List.eq_nil_iff_forall_not_mem.mpr fun v mem => ?_
  obtain ⟨b, mb, race⟩ := leaves.races consumed v mem
  rw [h.racesOf_eq_nil mb] at race
  cases race

theorem define (h : c.Simple) {name : String} {kind : CapabilityKind} {site : Span}
    (hc : c.define name kind site = .ok c') : c'.Simple := by
  simp only [Context.define] at hc
  split at hc
  · cases hc
  · split at hc
    · cases hc
    · cases hc
      refine ⟨h.thread, fun b mem => ?_⟩
      obtain old | new := List.mem_append.mp mem
      · exact h.table b old
      · rw [List.mem_singleton.mp new]
        exact ⟨Lifecycle.dated_start, fun _ mem => absurd mem List.not_mem_nil⟩

theorem sync (h : c.Simple) (site : Span) : (c.sync site).Simple := by
  refine ⟨h.thread, fun b mem => ?_⟩
  obtain ⟨old, mo, rfl⟩ := List.mem_map.mp mem
  split
  · refine ⟨(h.table old mo).life, fun r mr => ?_⟩
    obtain before | new := List.mem_append.mp mr
    · exact (h.table old mo).history r before
    · rw [List.mem_singleton.mp new]
      exact h.thread
  · exact h.table old mo

theorem enterBranch (h : c.Simple) : c.enterBranch.Simple := ⟨h.thread, h.table⟩

theorem nextArm (h : c.Simple) (hc : c.nextArm = .ok c') : c'.Simple := by
  simp only [Context.nextArm] at hc
  split at hc
  · cases hc
  · cases hc
    exact ⟨h.thread, h.table⟩

theorem exitBranch (h : c.Simple) {site : Span} (hc : c.exitBranch site = .ok c') :
    c'.Simple := by
  simp only [Context.exitBranch] at hc
  split at hc
  · cases hc
  next b rest _ =>
    have inside : Simple { c with branches := rest } := ⟨h.thread, h.table⟩
    cases hc
    split
    · exact inside.sync site
    · exact inside

/-! ## Snapshots -/

theorem snapshot (h : c.Simple) : ∀ x ∈ c.snapshot, x.2.Dated := by
  intro x mem
  obtain ⟨b, mb, rfl⟩ := List.mem_map.mp mem
  exact (h.table b (List.mem_of_mem_filter mb)).life

theorem restore (h : c.Simple) {s : Snapshot} (hs : ∀ x ∈ s, x.2.Dated) :
    (c.restore s).Simple := by
  refine h.mapBindings fun b _ simple => ?_
  split
  next l look => exact ⟨(hs _ (Cells.mem_of_lookup look)).rewind _, simple.history⟩
  next => exact simple

theorem merge (h : c.Simple) {arms : List Snapshot} (hs : ∀ s ∈ arms, ∀ x ∈ s, x.2.Dated) :
    (c.merge arms).Simple := by
  cases arms with
  | nil => exact h
  | cons first rest =>
    refine h.mapBindings fun b _ simple => ?_
    split
    next => exact simple
    next l look =>
      refine ⟨Lifecycle.Dated.rewind (Lifecycle.dated_merge fun l' mem => ?_) _, simple.history⟩
      obtain rfl | mem := List.mem_cons.mp mem
      · exact hs first List.mem_cons_self _ (Cells.mem_of_lookup look)
      · obtain ⟨s, ms, look'⟩ := List.mem_filterMap.mp mem
        exact hs s (List.mem_cons_of_mem _ ms) _ (Cells.mem_of_lookup look')

end Simple

/-! ## Joins -/

/-- The lifecycle of a number where arms meet.  `now` is for a number that is not known
there. -/
def met (arms : List Snapshot) (id : Nat) (now : Lifecycle) : Lifecycle :=
  match arms with
  | [] => now
  | first :: rest =>
    match first.lookup id with
    | none => now
    | some l => now.rewind (l.merge (rest.filterMap (·.lookup id)))

theorem adjusts_met (c : Context) (arms : List Snapshot) : c.Adjusts (met arms) (c.merge arms) := by
  cases arms with
  | nil => exact ⟨rfl, rfl, (List.map_id c.faces).symm⟩
  | cons first rest => exact adjusts_merge c first rest

/-- One arm speaks for all about what joins keep. -/
theorem exists_met {P : Lifecycle → Prop} (rewind : ∀ now l : Lifecycle, P l → P (now.rewind l))
    (merge : ∀ first rest, (∀ l ∈ first :: rest, P l) → P (Lifecycle.merge first rest))
    {arms : List Snapshot} (nonempty : arms ≠ []) (id : Nat) :
    ∃ s ∈ arms, ∀ l, s.lookup id = some l → P l → ∀ now, P (met arms id now) := by
  by_contra none
  push Not at none
  cases arms with
  | nil => exact nonempty rfl
  | cons first rest =>
    obtain ⟨l, look, here, now, fails⟩ := none first List.mem_cons_self
    refine fails ?_
    simp only [met, look]
    refine rewind now _ (merge l _ fun l' mem => ?_)
    obtain rfl | mem := List.mem_cons.mp mem
    · exact here
    · obtain ⟨s, ms, look'⟩ := List.mem_filterMap.mp mem
      obtain ⟨l'', look'', there, -⟩ := none s (List.mem_cons_of_mem _ ms)
      cases look'.symm.trans look''
      exact there

/-- If the capability is free at the end of one arm, it is free where all meet. -/
theorem exists_free_met {arms : List Snapshot} (dated : ∀ s ∈ arms, ∀ x ∈ s, x.2.Dated)
    (nonempty : arms ≠ []) (id : Nat) :
    ∃ s ∈ arms, ∀ l, s.lookup id = some l → l.Free → ∀ now, (met arms id now).Free := by
  obtain ⟨s, ms, speaks⟩ := exists_met (P := fun l => l.Dated ∧ l.Free)
    (fun _ _ h => h) (fun _ _ h => ⟨Lifecycle.dated_merge fun l mem => (h l mem).1,
      Lifecycle.free_merge (fun l mem => (h l mem).1) fun l mem => (h l mem).2⟩) nonempty id
  exact ⟨s, ms, fun l look free now =>
    (speaks l look ⟨dated s ms _ (Cells.mem_of_lookup look), free⟩ now).2⟩

/-- If the capability is consumed at the end of one arm, it is consumed where all meet. -/
theorem exists_consumed_met {arms : List Snapshot} (nonempty : arms ≠ []) (id : Nat) :
    ∃ s ∈ arms, ∀ l, s.lookup id = some l → l.state = .consumed →
      ∀ now, (met arms id now).state = .consumed :=
  exists_met (fun _ _ h => h) (fun _ _ h => Lifecycle.consumed_merge h) nonempty id

theorem simple_empty (strict : Bool) : (empty strict).Simple :=
  ⟨rfl, fun _ mem => absurd mem List.not_mem_nil⟩

end Context

end ResourceSafety.Capability
