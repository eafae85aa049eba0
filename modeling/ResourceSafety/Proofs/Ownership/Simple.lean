import ResourceSafety.Proofs.Ownership.Covering

/-!
# Trackers without borrows

A program that only reads and moves its values leaves every record *idle*: nothing is borrowed,
and the value is owned or gone.  An idle record refuses exactly the accesses to a value that is
gone, so the whole of ownership comes down to one question.
-/

namespace ResourceSafety.Ownership

namespace Record

/-- Nothing is borrowed. -/
structure Idle (r : Record) : Prop where
  shared : r.shared = []
  mutable : r.mutable = none
  state : r.state = .owned ∨ r.state.isUsable = false

variable {r other : Record}

theorem idle_start : Idle {} := ⟨rfl, rfl, .inl rfl⟩

/-- A value that is there is refused nothing. -/
theorem Idle.refusal_eq_none_iff (h : r.Idle) {name : String} {site : Span} {a : Access} :
    r.refusal? name site a = none ↔ r.state.isUsable = true := by
  refine ⟨isUsable_of_accepted, fun usable => ?_⟩
  have owned : r.state = .owned := h.state.resolve_right (by simp [usable])
  cases a <;> simp [refusal?, owned, State.isUsable, h.shared, h.mutable]

theorem Idle.after (h : r.Idle) (site : Span) {a : Access} (unborrowed : ∀ x, a ≠ .borrow x) :
    (r.after site a).Idle := by
  cases a with
  | read => exact h
  | move => exact ⟨h.shared, h.mutable, .inr rfl⟩
  | borrow x => exact absurd rfl (unborrowed x)

/-- Without borrows a value is owned or gone. -/
theorem idle_settle (shared : r.shared = []) (mutable : r.mutable = none) : r.settle.Idle := by
  cases usable : r.state.isUsable with
  | true =>
    simp only [settle, usable, if_true]
    exact ⟨shared, mutable, .inl (by simp [borrowState, shared, mutable])⟩
  | false =>
    simp only [settle, usable, Bool.false_eq_true, if_false]
    exact ⟨shared, mutable, .inr usable⟩

theorem Idle.join (h : r.Idle) (h' : other.Idle) : (r.join other).Idle := by
  obtain ⟨-, torn⟩ | ⟨-, moved⟩ | ⟨-, -, there⟩ := join_cases r other
  · rw [torn]
    exact ⟨rfl, rfl, .inr rfl⟩
  · rw [moved]
    exact ⟨h.shared, h.mutable, h.state⟩
  · rw [there]
    exact idle_settle (by simp [h.shared, h'.shared, addSpans]) (by simp [h.mutable, h'.mutable])

/-- A value that is there on both arms is there where they meet. -/
theorem isUsable_join (h : r.state.isUsable = true) (h' : other.state.isUsable = true) :
    (r.join other).state.isUsable = true := by
  obtain ⟨gone, -⟩ | ⟨moved, -⟩ | ⟨-, -, there⟩ := join_cases r other
  · simp [h, h'] at gone
  · simp [moved, State.isUsable] at h
  · rw [there, isUsable_settle]
    exact h

end Record

namespace Tracker

/-- The record of a number where arms meet.  `now` is for a number that is not known there. -/
def met (arms : List Snapshot) (id : Nat) (now : Record) : Record :=
  match arms with
  | [] => now
  | first :: rest =>
    match first.lookup id with
    | none => now
    | some r => (mergeRecord id r rest).1

theorem cells_met (t : Tracker) (site : Span) (arms : List Snapshot) :
    (t.merge site arms).cells = t.cells.adjust (met arms) := by
  cases arms with
  | nil => exact (Cells.adjust_same t.cells).symm
  | cons first rest => exact cells_merge t site first rest

/-- One arm speaks for all: if the value is there at its end, it is there where they meet. -/
theorem exists_usable_met {arms : List Snapshot} (nonempty : arms ≠ []) (id : Nat) :
    ∃ s ∈ arms, ∀ r, s.lookup id = some r → r.state.isUsable = true →
      ∀ now, (met arms id now).state.isUsable = true := by
  by_contra none
  push Not at none
  cases arms with
  | nil => exact nonempty rfl
  | cons first rest =>
    -- then the value is there at the end of each arm
    obtain ⟨r, look, usable, now, gone⟩ := none first List.mem_cons_self
    refine gone ?_
    simp only [met, look]
    refine mergeRecord_of_join (P := fun r => r.state.isUsable = true)
      (fun _ _ => Record.isUsable_join) usable fun s ms r' look' => ?_
    obtain ⟨r'', look'', usable', -⟩ := none s (List.mem_cons_of_mem _ ms)
    cases look'.symm.trans look''
    exact usable'

/-- Nothing is borrowed. -/
def Idle (t : Tracker) : Prop := t.cells.All fun _ r => r.Idle

variable {t t' : Tracker}

theorem idle_empty : empty.Idle := fun _ mem => absurd mem List.not_mem_nil

namespace Idle

theorem snapshot (h : t.Idle) : ∀ x ∈ t.snapshot, x.2.Idle := by
  rw [snapshot_eq]
  intro x mem
  obtain ⟨c, mc, rfl⟩ := List.mem_map.mp mem
  exact h c mc

theorem enter (h : t.Idle) : t.enter.Idle := h

theorem exit (h : t.Idle) (ht : t.exit = .ok t') : t'.Idle := by
  rw [Idle, (cells_exit ht).1]
  exact Cells.All.tail h

theorem define (h : t.Idle) {name : String} {site : Span} (ht : t.define name site = .ok t') :
    t'.Idle := by
  rw [Idle, (cells_define ht).1]
  exact Cells.All.add h Record.idle_start

theorem access (h : t.Idle) (n : t.Numbered) {a : Access} (unborrowed : ∀ x, a ≠ .borrow x)
    {name : String} {site : Span} {v : Option Violation}
    (ht : t.access a name site = .ok (v, t')) : t'.Idle := by
  obtain ⟨b, found, -, -, cells⟩ := access_ok n ht
  rw [Idle, cells]
  split
  · refine Cells.All.assign h n.distinct (find?_cells found) ?_
    exact (h b.cell (List.mem_of_find?_eq_some (find?_cells found))).after site unborrowed
  · exact h

theorem restore (h : t.Idle) {s : Snapshot} (hs : ∀ x ∈ s, x.2.Idle) : (t.restore s).Idle := by
  rw [Idle, cells_restore]
  refine Cells.All.adjust fun c mem => ?_
  cases look : s.lookup c.id with
  | none => exact h c mem
  | some r => exact hs (c.id, r) (Cells.mem_of_lookup look)

theorem merge (h : t.Idle) (site : Span) {arms : List Snapshot}
    (hs : ∀ s ∈ arms, ∀ x ∈ s, x.2.Idle) : (t.merge site arms).Idle := by
  cases arms with
  | nil => exact h
  | cons first rest =>
    have known : ∀ s ∈ first :: rest, ∀ {i : Nat} {r : Record}, s.lookup i = some r → r.Idle :=
      fun s ms i r look => hs s ms (i, r) (Cells.mem_of_lookup look)
    rw [Idle, cells_merge]
    refine Cells.All.adjust fun c mem => ?_
    split
    · exact h c mem
    next r look =>
      exact mergeRecord_of_join (P := Record.Idle) (fun _ _ => .join)
        (known first List.mem_cons_self look)
        fun arm ma r look => known arm (List.mem_cons_of_mem _ ma) look

end Idle

end Tracker

end ResourceSafety.Ownership
