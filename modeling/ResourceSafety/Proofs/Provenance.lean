import ResourceSafety.Proofs.Capability.Provenance
import ResourceSafety.Proofs.Ownership.Provenance

/-!
# Every reported conflict happened

Both state machines report a finding together with the span of an earlier event, and both may be
captured, rewound and joined in any order before they do.  The event is one that took place: it
was accepted before, for the binding that the finding names, and it is of the kind that the
finding is about.
-/

namespace ResourceSafety

/-- The conflict of a finding is the place of an earlier event.

After any operations on a tracker, it is that of a deed of the binding that the name means: a
move for what is used, moved or borrowed after a move, and a borrow for what excludes or outlives
one.  After any operations on a context, it is that of a consuming access, of the first of two
accesses by the threads of a race, or of the definition. -/
theorem conflict_happened (os : List Ownership.Operation) (o : Ownership.Operation) (strict : Bool)
    (qs : List Capability.Operation) (q : Capability.Operation) :
    (∀ v t s, (Ownership.Chronicle.run os).answer o = .ok (some v, t) → v.conflict = some s →
      (Ownership.Chronicle.run os).Blames v s) ∧
    (∀ vs c, (Capability.Chronicle.run strict qs).answer q = .ok (vs, c) →
      ∀ v ∈ vs, ∀ s, v.conflict = some s → (Capability.Chronicle.run strict qs).Blames q v s) := by
  constructor
  · intro v t s answered conflict
    exact (Ownership.Chronicle.traced_run os).blames answered conflict
  · intro vs c answered v mem s conflict
    exact (Capability.Chronicle.traced_run strict qs).blames answered mem conflict

/-- A value is moved on the second of two arms, and read where they meet.  A capability is
consumed on the first of two arms, and used where they meet. -/
theorem conflict_happened_where_arms_meet :
    (Ownership.Chronicle.run [.define "f" (.point "a" 1 1), .snapshot, .restore 0,
      .access .move "f" (.point "a" 2 1), .snapshot, .merge (.point "a" 3 1) [0, 1]]).Blames
        { kind := .useAfterMove, binding := "f", span := .point "a" 4 1
          conflict := some (.point "a" 2 1), reason := "may have been moved on another path" }
        (.point "a" 2 1) ∧
    (Capability.Chronicle.run true [.define "m" .socket (.point "a" 1 1), .snapshot,
      .consume "m" (.point "a" 2 1), .snapshot, .restore 0, .merge [1, 0]]).Blames
        (.use "m" (.point "a" 4 1))
        { kind := .useAfterConsumption, binding := "m", span := .point "a" 4 1
          conflict := some (.point "a" 2 1), reason := "may have been consumed on another path" }
        (.point "a" 2 1) := by
  constructor
  · exact (conflict_happened _ (.access .read "f" (.point "a" 4 1)) true [] .validate).1 _ _ _
      rfl rfl
  · exact (conflict_happened [] .enter _ _ _).2 _ _ rfl _ List.mem_cons_self _ rfl

end ResourceSafety
