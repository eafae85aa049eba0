import ResourceSafety.Proofs.Checker.Branch
import ResourceSafety.Proofs.Ownership.Lending

/-!
# Borrows in a unit

The places at which names were lent are followed through the requests of a unit.  A shared
borrow adds its place, and must be at a new one.  Rewinds give back records that are known,
and joins put borrows of their arms together.
-/

namespace ResourceSafety.CompilationUnit

open Logic (Action Solver)
open Ownership (Record)

/-- Every record is loaned under its name. -/
def Lent (L : Set (String × Span)) (l : Records) : Prop :=
  ∀ s ∈ l, ∀ r ∈ s.flatten, r.2.Loaned L r.1

variable {σ : Type} {e u v : CompilationUnit σ} {f : Fork} {outer : List Fork}
  {L L' : Set (String × Span)} {l : Records}

theorem lent_records : Lent L u.records ↔ ∀ b ∈ u.bodies, b.tracker.Lent L := by
  simp only [Lent, records, List.forall_mem_map, Cells.flatten_contents]
  rfl

theorem Lent.mono (h : Lent L l) (more : L ⊆ L') : Lent L' l :=
  fun s ms r mr => (h s ms r mr).mono more

/-- A body begins, with no names. -/
theorem Lent.begin (h : Lent L l) : Lent L ([[]] :: l) := by
  simpa [Lent] using h

/-- A block begins, with no names. -/
theorem Lent.enter {s : List (List (String × Record))} (h : Lent L (s :: l)) :
    Lent L (([] :: s) :: l) := by
  simpa [Lent] using h

/-! ## Requests -/

theorem Lent.change (h : Lent L u.records) (more : L ⊆ L') {id : Nat}
    {tracker : Ownership.Tracker} (lent : tracker.Lent L') {c : Capability.Context}
    {found : List Violation}
    (turns : u.Turns v (u.bodies.map fun x => if x.id = id then { x with tracker } else x) c
      found) : Lent L' v.records := by
  rw [lent_records, turns.bodies]
  refine List.forall_mem_map.mpr fun b mem => ?_
  split
  · exact lent
  · exact (lent_records.mp h b mem).mono more

theorem Lent.access (h : Lent L u.records) (n : u.Numbered) (more : L ⊆ L')
    {a : Ownership.Access} {name : String} {site : Span} {x : Option Violation}
    (new : a = .borrow false → (name, site) ∉ L ∧ (name, site) ∈ L')
    (hu : (access a name site).perform u = (.ok x, v)) : Lent L' v.records := by
  obtain ⟨b, d, tracker, c, located, accessed, -, turns⟩ := access_ok hu
  have mem := mem_bodies_of_locate? located
  exact h.change more ((lent_records.mp h b mem).access (n.trackers b mem) more new accessed) turns

theorem Lent.release (h : Lent L u.records) (n : u.Numbered) {name : String} {site : Span}
    {x : Unit} (hu : (release name site).perform u = (.ok x, v)) : Lent L v.records := by
  obtain ⟨b, d, tracker, located, released, turns⟩ := release_ok hu
  have mem := mem_bodies_of_locate? located
  exact h.change subset_rfl ((lent_records.mp h b mem).release (n.trackers b mem) released) turns

theorem Lent.capabilityAccess (h : Lent L u.records)
    {op : Capability.Context → String → Span → Except Fault (Option Violation × Capability.Context)}
    {name : String} {site : Span} {x : Option Violation}
    (hu : (capabilityAccess op name site).perform u = (.ok x, v)) : Lent L v.records := by
  obtain ⟨b, d, -, turns⟩ := capabilityAccess_ok hu
  split at turns
  · obtain ⟨c, -, turns⟩ := turns
    exact turns.records ▸ h
  · exact turns ▸ h

/-- The innermost body changes. -/
theorem Lent.changeCurrent (h : Lent L u.records) {b : Body} (lent : b.tracker.Lent L)
    {c : Capability.Context} {found : List Violation}
    (turns : u.Turns v (b :: u.bodies.tail) c found) : Lent L v.records := by
  rw [lent_records, turns.bodies]
  intro b' mem
  obtain rfl | mem := List.mem_cons.mp mem
  · exact lent
  · exact lent_records.mp h b' (List.mem_of_mem_tail mem)

theorem Lent.current (h : Lent L u.records) : u.current.tracker.Lent L :=
  lent_records.mp h _ (current_mem u)

theorem Lent.declare (h : Lent L u.records) {name : String} {type : Option Ty} {site : Span}
    {d : Declared} (hu : (declare name type site).perform u = (.ok d, v)) : Lent L v.records := by
  obtain ⟨tracker, c, defined, -, turns⟩ := declare_ok hu
  refine h.changeCurrent ?_ turns
  rw [tracker_addName]
  exact h.current.define defined

theorem Lent.exitBlock (h : Lent L u.records) {site : Span} {found : List Violation}
    (hu : (exitBlock site).run u = ((found, none), v)) : Lent L v.records := by
  obtain ⟨k, blocks, tracker, c, -, exits, -, turns⟩ := closeBlock_ok (exitBlock_ok hu)
  exact h.changeCurrent (b := { u.current with tracker, blocks }) (h.current.exit exits) turns

theorem Lent.endFunction [Solver σ] (h : Lent L u.records) (n : u.Numbered) {gaveUp : Nat → Bool}
    {site : Span} {found : List Violation} (closed : u.current.blocks = [])
    (hu : (endFunction gaveUp site).run u = ((found, none), v)) : Lent L v.records := by
  obtain ⟨c, -, turns⟩ := endFunction_ok n.queue closed hu
  rw [lent_records, turns.bodies]
  exact fun b mem => lent_records.mp h b (List.mem_of_mem_tail mem)

/-! ## Branches -/

/-- The arms that were finished so far end with loaned records. -/
def Ends (L : Set (String × Span)) (e : CompilationUnit σ) (arms : List Moment) : Prop :=
  ∀ m ∈ arms, ∃ a : CompilationUnit σ,
    m = a.now ∧ a.Numbered ∧ a.outline = e.outline ∧ Lent L a.records

theorem Ends.finishArm (h : Ends L e f.arms) (opened : e.Opened u f outer)
    (lent : Lent L u.records) : Ends L e (Fork.finishArm f u).arms := by
  intro m mem
  rw [opened.arms_finishArm] at mem
  obtain mem | mem := List.mem_append.mp mem
  · exact h m mem
  · exact ⟨u, List.mem_singleton.mp mem, opened.numbered, opened.steady.outline, lent⟩

/-- Arms meet that end with loaned records. -/
theorem Lent.endBranch (h : Lent L u.records) (n : e.Numbered) (entry : Lent L e.records)
    (opened : e.Opened u f outer) (ends : Ends L e f.arms) {site : Span} {x : Unit}
    (hu : (CompilationUnit.endBranch site).perform u = (.ok x, v)) : Lent L v.records := by
  have met : Ends L e (meeting (Fork.finishArm f u)) := by
    have finished := ends.finishArm opened h
    simp only [meeting]
    split
    · intro m mem
      obtain mem | mem := List.mem_append.mp mem
      · exact finished m mem
      · exact ⟨e, (List.mem_singleton.mp mem).trans opened.entry, n, rfl, entry⟩
    · exact finished
  obtain ⟨f', rest, c, forks, -, turns⟩ := endBranch_ok hu
  rw [opened.forks, List.cons.injEq] at forks
  obtain ⟨rfl, rfl⟩ := forks
  rw [lent_records, turns.bodies]
  refine List.forall_mem_map.mpr fun b mem => ?_
  refine (lent_records.mp h b mem).merge site fun s ms => ?_
  obtain ⟨m, mm, look⟩ := List.mem_filterMap.mp ms
  obtain ⟨a, rfl, na, same, lent⟩ := met m mm
  obtain ⟨b', mb', known, own, outline⟩ :=
    exists_tracker_now na (same.trans opened.steady.outline.symm) mem
  exact ⟨b'.tracker, Option.some.inj (look.symm.trans known), own, outline,
    lent_records.mp lent b' mb'⟩

end ResourceSafety.CompilationUnit
