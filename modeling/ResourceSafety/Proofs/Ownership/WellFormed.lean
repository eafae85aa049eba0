import ResourceSafety.Proofs.Ownership.Provenance
import ResourceSafety.Proofs.Ownership.Simple

/-!
# Records are well-formed

The state of a record is kept beside the borrows and the move site from which it could be read
off, and the site of the mutable borrow beside the flag that there is one.  Accesses and releases
set the state anew, a move sets it alone, and arms of a branch meet in a record that is put
together from parts of all of them.

A record is *kept* when none of this comes apart: while the value is there, the state is the one
that the borrows call for and there is no move site, of a value that is gone nothing is borrowed,
and no site is left of a mutable borrow that ended (`Record.Kept`).  What is known of each state
follows (`Record.Kept.wellFormed`).

A property of records that accesses and releases keep is *stable*.  If joins keep it too, it
holds of every record of a tracker, whatever was captured, rewound and joined before; if they
do not, it holds until the first join (`Chronicle.holds_run`).  Being kept is of the first kind.
That a mutable borrow stands alone is of the second: where one arm borrows and the other borrows
mutably, both borrows stay.
-/

namespace ResourceSafety.Ownership

namespace Record

variable {r other : Record}

/-- The state, the borrows and the sites of a record go together. -/
structure WellFormed (r : Record) : Prop where
  owned : r.state = .owned ↔
    r.state ≠ .moved ∧ r.state ≠ .unknown ∧ r.shared = [] ∧ r.hasMutable = false
  borrowedMutably : r.state = .borrowedMutably ↔ r.hasMutable = true
  borrowed : r.state = .borrowed ↔ r.shared ≠ [] ∧ r.hasMutable = false
  gone : r.state = .moved ∨ r.state = .unknown → r.shared = [] ∧ r.hasMutable = false
  movedAt : r.state.isUsable = true → r.movedAt = .zero
  mutableAt : r.hasMutable = false → r.mutableAt = .zero

/-- A mutable borrow excludes every other one. -/
def Exclusive (r : Record) : Prop := r.hasMutable = true → r.shared = []

theorem isSome_mutable (r : Record) : r.mutable.isSome = r.hasMutable := by
  cases held : r.hasMutable <;> simp [mutable, held]

theorem mutable_eq_none_iff : r.mutable = none ↔ r.hasMutable = false := by simp [mutable]

@[simp] theorem hasMutable_settle (r : Record) : r.settle.hasMutable = r.hasMutable := by
  simp only [settle]
  split <;> rfl

@[simp] theorem mutableAt_settle (r : Record) : r.settle.mutableAt = r.mutableAt := by
  simp only [settle]
  split <;> rfl

/-! ## Kept records -/

/-- While the value is there, its state is the one that the borrows call for, and it was not
moved.  Of a value that is gone nothing is borrowed.  The site of the mutable borrow is cleared
with it. -/
structure Kept (r : Record) : Prop where
  settled : r.state.isUsable = true → r.Settled
  movedAt : r.state.isUsable = true → r.movedAt = .zero
  gone : r.state.isUsable = false → r.shared = [] ∧ r.hasMutable = false
  cleared : r.hasMutable = false → r.mutableAt = .zero

theorem isUsable_eq_false_iff {s : State} : s.isUsable = false ↔ s = .moved ∨ s = .unknown := by
  cases s <;> simp [State.isUsable]

theorem Kept.wellFormed (h : r.Kept) : r.WellFormed := by
  cases usable : r.state.isUsable with
  | true =>
    have there : ¬(r.state = .moved ∨ r.state = .unknown) := by
      simp [← isUsable_eq_false_iff, usable]
    have settled := h.settled usable
    rw [Settled, borrowState, isSome_mutable] at settled
    refine ⟨?_, ?_, ?_, fun gone => absurd gone there, h.movedAt, h.cleared⟩
    all_goals
      cases hm : r.hasMutable <;> cases hs : r.shared <;> simp [hm, hs] at settled <;>
        simp [settled]
  | false =>
    obtain ⟨shared, mutable⟩ := h.gone usable
    obtain moved | unknown := isUsable_eq_false_iff.mp usable
    · exact ⟨by simp [moved], by simp [moved, mutable], by simp [moved, shared],
        fun _ => ⟨shared, mutable⟩, h.movedAt, h.cleared⟩
    · exact ⟨by simp [unknown], by simp [unknown, mutable], by simp [unknown, shared],
        fun _ => ⟨shared, mutable⟩, h.movedAt, h.cleared⟩

namespace Kept

theorem start : Kept {} := ⟨fun _ => rfl, fun _ => rfl, nofun, fun _ => rfl⟩

/-- A value that is there, with its borrows changed and its state set anew. -/
theorem settle (usable : r.state.isUsable = true) (movedAt : r.movedAt = .zero)
    (cleared : r.hasMutable = false → r.mutableAt = .zero) : r.settle.Kept := by
  refine ⟨fun _ => settled_settle usable, fun _ => by rw [movedAt_settle, movedAt], fun gone => ?_,
    by simpa using cleared⟩
  rw [isUsable_settle, usable] at gone
  cases gone

/-- Only a value of which nothing is borrowed is moved. -/
theorem unlent_of_moved (h : r.Kept) {name : String} {site : Span}
    (accepted : r.refusal? name site .move = none) : r.shared = [] ∧ r.hasMutable = false := by
  have settled := h.settled (isUsable_of_accepted accepted)
  simpa [mutable_eq_none_iff, and_comm] using settled.accepts_iff.mp accepted

theorem after (h : r.Kept) {name : String} {site : Span} {a : Access}
    (accepted : r.refusal? name site a = none) : (r.after site a).Kept := by
  have usable := isUsable_of_accepted accepted
  cases a with
  | read => exact h
  | move => exact ⟨nofun, nofun, fun _ => h.unlent_of_moved accepted, h.cleared⟩
  | borrow exclusive =>
    cases exclusive with
    | true => exact settle usable (h.movedAt usable) nofun
    | false => exact settle usable (h.movedAt usable) h.cleared

/-- Only of a value that is there a borrow ends. -/
theorem isUsable_of_release (h : r.Kept) {r' : Record} (ended : r.release? = some r') :
    r.state.isUsable = true := by
  by_contra gone
  obtain ⟨shared, mutable⟩ := h.gone (by simpa using gone)
  simp [release?, shared, isSome_mutable, mutable] at ended

theorem release (h : r.Kept) {r' : Record} (ended : r.release? = some r') : r'.Kept := by
  have usable := h.isUsable_of_release ended
  simp only [release?] at ended
  split at ended
  · cases ended
    exact settle usable (h.movedAt usable) fun _ => rfl
  · split at ended
    · cases ended
    · cases ended
      exact settle usable (h.movedAt usable) h.cleared

/-- A value that is gone where arms meet has lost the borrows of both, and one that is there was
moved on neither. -/
theorem join (h : r.Kept) (h' : other.Kept) : (r.join other).Kept := by
  obtain ⟨-, torn⟩ | ⟨moved, stays⟩ | ⟨here, there, joined⟩ := join_cases r other
  · rw [torn]
    exact ⟨nofun, nofun, fun _ => ⟨rfl, rfl⟩, fun _ => rfl⟩
  · rw [stays]
    have gone : r.state.isUsable = false := by rw [moved]; rfl
    exact ⟨fun usable => absurd usable (by simp [gone]), fun usable => absurd usable (by simp [gone]),
      h.gone, h.cleared⟩
  · rw [joined]
    refine settle here (by simp [h.movedAt here, h'.movedAt there]) fun free => ?_
    obtain ⟨free, free'⟩ := Bool.or_eq_false_iff.mp free
    simp [free, free', h.cleared]

end Kept

/-! ## Stable properties -/

/-- A property that a new record has, and that accesses and releases keep. -/
structure Stable (P : Record → Prop) : Prop where
  start : P {}
  after {r : Record} {name : String} {site : Span} {a : Access} : P r →
    r.refusal? name site a = none → P (r.after site a)
  release {r r' : Record} : P r → r.release? = some r' → P r'

/-- Arms that have the property meet in a record that has it. -/
def Joinable (P : Record → Prop) : Prop := ∀ r other, P r → P other → P (r.join other)

theorem stable_kept : Stable Kept where
  start := .start
  after h accepted := h.after accepted
  release h ended := h.release ended

theorem joinable_kept : Joinable Kept := fun _ _ => .join

/-- Without joins a mutable borrow stands alone, and the state tells whether there is one. -/
theorem stable_exclusive : Stable fun r => r.Kept ∧ r.Exclusive where
  start := ⟨.start, fun _ => rfl⟩
  after {r name site a} h accepted := by
    refine ⟨h.1.after accepted, ?_⟩
    have settled := h.1.settled (isUsable_of_accepted accepted)
    cases a with
    | read | move => exact h.2
    | borrow exclusive =>
      -- the record has no mutable borrow, and for a mutable one no other either
      obtain ⟨free, shares⟩ := (settled.accepts_iff.mp accepted).resolve_left nofun
      rw [mutable_eq_none_iff] at free
      cases exclusive with
      | true =>
        have alone : r.shared = [] := shares.resolve_left nofun
        exact fun _ => by simp [Record.after, alone]
      | false => exact fun held => by simp [Record.after, free] at held
  release h ended := by
    refine ⟨h.1.release ended, fun held => ?_⟩
    rw [mutable_eq_none_iff.mp (released ended).1] at held
    cases held

end Record

/-! ## Runs -/

/-- Arms meet. -/
def Operation.isMerge : Operation → Bool
  | .merge _ _ => true
  | _ => false

namespace Chronicle

open Record (Stable Joinable)

variable {k : Chronicle} {P : Record → Prop}

/-- Every record of the tracker and of the snapshots has the property. -/
structure Holds (P : Record → Prop) (k : Chronicle) : Prop where
  bindings : ∀ b ∈ k.tracker.bindings, P b.record
  snapshots : ∀ s ∈ k.snapshots, ∀ p ∈ s, P p.2

namespace Holds

theorem taken (h : k.Holds P) {index id : Nat} {r : Record}
    (look : (k.taken index).lookup id = some r) : P r := by
  obtain ⟨s, ms, mem⟩ := Cells.exists_of_mem_getD (Cells.mem_of_lookup look)
  exact h.snapshots s ms _ mem

/-- The records change, and no snapshot is taken. -/
theorem remap (h : k.Holds P) {f : Binding → Binding} {deeds : List (Nat × Event)}
    (keeps : ∀ b ∈ k.tracker.bindings, P (f b).record) :
    Holds P ⟨k.tracker.mapBindings f, k.snapshots ++ [], deeds⟩ := by
  refine ⟨fun b mem => ?_, by simpa using h.snapshots⟩
  rw [Tracker.bindings_mapBindings] at mem
  obtain ⟨b, inside, rfl⟩ := List.mem_map.mp mem
  exact keeps b inside

/-- One binding gets a new record. -/
theorem put (h : k.Holds P) {b : Binding} (new : P b.record) {deeds : List (Nat × Event)} :
    Holds P ⟨k.tracker.put b, k.snapshots ++ [], deeds⟩ := by
  refine h.remap fun old inside => ?_
  split
  · exact new
  · exact h.bindings old inside

/-- The bindings are some of those that were there, or new. -/
theorem among (h : k.Holds P) {t : Tracker} {deeds : List (Nat × Event)}
    (among : ∀ b ∈ t.bindings, b ∈ k.tracker.bindings ∨ P b.record) :
    Holds P ⟨t, k.snapshots ++ [], deeds⟩ :=
  ⟨fun b mem => (among b mem).elim (h.bindings b) id, by simpa using h.snapshots⟩

theorem exit (h : k.Holds P) {t : Tracker} (ht : k.tracker.exit = .ok t)
    {deeds : List (Nat × Event)} : Holds P ⟨t, k.snapshots ++ [], deeds⟩ :=
  h.among fun _ mem => .inl (Tracker.mem_bindings_of_exit ht mem)

theorem define (h : k.Holds P) (start : P {}) {name : String} {site : Span} {t : Tracker}
    (ht : k.tracker.define name site = .ok t) {deeds : List (Nat × Event)} :
    Holds P ⟨t, k.snapshots ++ [], deeds⟩ := by
  refine h.among fun b mem => ?_
  obtain old | rfl := Tracker.mem_bindings_of_define ht mem
  · exact .inl old
  · exact .inr start

theorem access (h : k.Holds P) (stable : Stable P) {a : Access} {name : String} {site : Span}
    {v : Option Violation} {t : Tracker} (ht : k.tracker.access a name site = .ok (v, t))
    {deeds : List (Nat × Event)} : Holds P ⟨t, k.snapshots ++ [], deeds⟩ := by
  obtain ⟨b, found, answer, rfl⟩ := Tracker.access_cases ht
  cases v with
  | some w => exact h.among fun b mem => .inl mem
  | none => exact h.put (stable.after (h.bindings b (List.mem_of_find?_eq_some found)) answer.symm)

theorem release (h : k.Holds P) (stable : Stable P) {name : String} {site : Span} {t : Tracker}
    (ht : k.tracker.release name site = .ok t) {deeds : List (Nat × Event)} :
    Holds P ⟨t, k.snapshots ++ [], deeds⟩ := by
  obtain ⟨b, r, found, ended, rfl⟩ := Tracker.release_cases ht
  exact h.put (stable.release (h.bindings b (List.mem_of_find?_eq_some found)) ended)

theorem capture (h : k.Holds P) {deeds : List (Nat × Event)} :
    Holds P ⟨k.tracker, k.snapshots ++ [k.tracker.snapshot], deeds⟩ := by
  refine ⟨h.bindings, fun s mem p inside => ?_⟩
  obtain old | new := List.mem_append.mp mem
  · exact h.snapshots s old p inside
  · rw [List.mem_singleton.mp new] at inside
    obtain ⟨b, known, rfl⟩ := List.mem_map.mp inside
    exact h.bindings b known

theorem restore (h : k.Holds P) (index : Nat) {deeds : List (Nat × Event)} :
    Holds P ⟨k.tracker.restore (k.taken index), k.snapshots ++ [], deeds⟩ := by
  refine h.remap fun b inside => ?_
  split
  next r look => exact h.taken look
  next => exact h.bindings b inside

theorem merge (h : k.Holds P) (joinable : Joinable P) (site : Span) (arms : List Nat)
    {deeds : List (Nat × Event)} :
    Holds P ⟨k.tracker.merge site (arms.map k.taken), k.snapshots ++ [], deeds⟩ := by
  cases arms with
  | nil => exact h.among fun b mem => .inl mem
  | cons first rest =>
    refine h.remap fun b inside => ?_
    cases look : (k.taken first).lookup b.id with
    | none => exact h.bindings b inside
    | some r =>
      have met : P (Tracker.mergeRecord b.id r (rest.map k.taken)).1 := by
        refine Tracker.mergeRecord_of_join joinable (h.taken look) fun arm mem x look' => ?_
        obtain ⟨index, -, rfl⟩ := List.mem_map.mp mem
        exact h.taken look'
      rcases merged : Tracker.mergeRecord b.id r (rest.map k.taken) with ⟨r', alike⟩
      rw [merged] at met
      cases alike <;> simpa [merged, Binding.advance] using met

/-- Every operation keeps a stable property, and one that arms meet in too if joins do. -/
theorem yields (h : k.Holds P) (stable : Stable P) {o : Operation} {k' : Chronicle}
    (yields : k.Yields o k') (joins : o.isMerge = true → Joinable P) : k'.Holds P := by
  cases yields with
  | refused => exact h
  | enter => exact h.among fun b mem => .inl mem
  | exit ht => exact h.exit ht
  | define ht => exact h.define stable.start ht
  | access answered => exact h.access stable answered
  | release ht => exact h.release stable ht
  | snapshot => exact h.capture
  | restore index => exact h.restore index
  | merge site arms => exact h.merge (joins rfl) site arms

end Holds

/-- A stable property holds of every record as long as no arms meet, or if joins keep it. -/
theorem holds_run (os : List Operation) (stable : Stable P)
    (joins : ∀ o ∈ os, o.isMerge = true → Joinable P) : (run os).Holds P := by
  have start : Holds P {} :=
    ⟨fun _ mem => absurd mem (by simp [Tracker.bindings, Tracker.scopes]),
      fun _ mem => absurd mem List.not_mem_nil⟩
  exact List.foldlRecOn os Chronicle.step start fun k holds o mem =>
    holds.yields stable (k.yields_step o) (joins o mem)

/-- Whatever was done with a tracker, all its records are well-formed.  Unless arms met, no
mutable borrow stands beside another one. -/
theorem wellFormed_run (os : List Operation) : ∀ b ∈ (run os).tracker.bindings,
    b.record.WellFormed ∧ ((∀ o ∈ os, o.isMerge = false) → b.record.Exclusive) := by
  intro b mem
  constructor
  · have kept := holds_run os Record.stable_kept fun _ _ _ => Record.joinable_kept
    exact (kept.bindings b mem).wellFormed
  · intro unjoined
    have alone := holds_run os Record.stable_exclusive fun o mo merges => by
      rw [unjoined o mo] at merges
      cases merges
    exact (alone.bindings b mem).2

/-- On the first arm `x` is borrowed and `y` mutably.  On the second `x` is borrowed mutably, and
on the third `y` is moved.  Where the first two meet, `x` has both borrows.  Where all meet, `y`
has none.  Before that no mutable borrow stands beside another one. -/
theorem wellFormed_run_threeArms :
    let site (line : Int64) := Span.point "a" line 1
    let os : List Operation := [.define "x" (site 1), .define "y" (site 2), .snapshot,
      .access (.borrow false) "x" (site 3), .access (.borrow true) "y" (site 4), .snapshot,
      .restore 0, .access (.borrow true) "x" (site 5), .snapshot,
      .restore 0, .access .move "y" (site 6), .snapshot, .restore 2]
    (∃ b ∈ (run (os ++ [.merge (site 7) [1, 2]])).tracker.bindings, b.name = "x" ∧
      b.record.hasMutable = true ∧ b.record.mutableAt = site 5 ∧ b.record.shared = [site 3] ∧
      b.record.WellFormed) ∧
    (∃ b ∈ (run (os ++ [.merge (site 7) [1, 2, 3]])).tracker.bindings, b.name = "y" ∧
      b.record.state = .unknown ∧ b.record.movedAt = site 6 ∧ b.record.WellFormed) ∧
    ∃ b ∈ (run os).tracker.bindings, b.name = "x" ∧ b.record.mutableAt = site 5 ∧
      b.record.hasMutable = true ∧ b.record.shared = [] := by
  intro site os
  refine ⟨?_, ?_, ?_⟩
  · obtain ⟨b, mem, name, mutable, at5, shared⟩ :
        ∃ b ∈ (run (os ++ [.merge (site 7) [1, 2]])).tracker.bindings, b.name = "x" ∧
          b.record.hasMutable = true ∧ b.record.mutableAt = site 5 ∧
          b.record.shared = [site 3] := by
      decide +kernel
    exact ⟨b, mem, name, mutable, at5, shared, (wellFormed_run _ b mem).1⟩
  · obtain ⟨b, mem, name, state, movedAt⟩ :
        ∃ b ∈ (run (os ++ [.merge (site 7) [1, 2, 3]])).tracker.bindings, b.name = "y" ∧
          b.record.state = .unknown ∧ b.record.movedAt = site 6 := by
      decide +kernel
    exact ⟨b, mem, name, state, movedAt, (wellFormed_run _ b mem).1⟩
  · obtain ⟨b, mem, name, at5, mutable⟩ : ∃ b ∈ (run os).tracker.bindings, b.name = "x" ∧
        b.record.mutableAt = site 5 ∧ b.record.hasMutable = true := by
      decide +kernel
    have alone := (wellFormed_run os b mem).2 (by decide)
    exact ⟨b, mem, name, at5, mutable, alone mutable⟩

end Chronicle

end ResourceSafety.Ownership
