import ResourceSafety.Proofs.Capability.Charting

/-!
# Accesses that exclude each other

Two accesses exclude each other when some branch is on the paths of both with different arms.  The
walk over the two paths looks for such a branch from the outside, and gives up at the first place
where the branches differ.  For paths in general that is too early.

The paths of all records of a context are paths of one tree (`Rooted`): branches are never numbered
alike, and what encloses a branch does not change while it is open.  So all that is before the
branch is the same on both paths, and the walk gets there (`exclusive_iff_of_rooted`).  No record of
any run is judged wrongly (`exclusive_iff_forked`).
-/

namespace ResourceSafety.Capability

/-- Paths that part do so at a branch. -/
theorem exists_of_exclusive {p q : ArmPath} (h : exclusive p q = true) :
    ∃ ref ∈ p, ∃ ref' ∈ q, ref.branch = ref'.branch ∧ ref.arm ≠ ref'.arm := by
  induction p generalizing q with
  | nil => simp [exclusive] at h
  | cons a as ih =>
    cases q with
    | nil => simp [exclusive] at h
    | cons b bs =>
      rw [exclusive] at h
      split at h
      · cases h
      next branch =>
        split at h
        next arm => exact ⟨a, List.mem_cons_self, b, List.mem_cons_self, not_not.mp branch, arm⟩
        · obtain ⟨ref, mem, ref', mem', part⟩ := ih h
          exact ⟨ref, List.mem_cons_of_mem _ mem, ref', List.mem_cons_of_mem _ mem', part⟩

section

variable {around : Nat → ArmPath} {p q : ArmPath}

/-- Two paths of one tree exclude each other if and only if some branch is on both with different
arms. -/
theorem exclusive_iff_of_rooted (hp : Rooted around p) (hq : Rooted around q) :
    exclusive p q = true ↔ ∃ k i j, ⟨k, i⟩ ∈ p ∧ ⟨k, j⟩ ∈ q ∧ i ≠ j := by
  constructor
  · intro part
    obtain ⟨⟨k, i⟩, mem, ⟨k', j⟩, mem', branch, arm⟩ := exists_of_exclusive part
    obtain rfl : k = k' := branch
    exact ⟨k, i, j, mem, mem', arm⟩
  · rintro ⟨k, i, j, mem, mem', arm⟩
    -- up to the branch both paths are what is around it
    obtain ⟨s, rfl⟩ := hp.split mem
    obtain ⟨t, rfl⟩ := hq.split mem'
    exact Rooted.exclusive_fork rfl arm

theorem exclusive_eq_false_iff (hp : Rooted around p) (hq : Rooted around q) :
    exclusive p q = false ↔
      ∀ ref ∈ p, ∀ ref' ∈ q, ref.branch = ref'.branch → ref.arm = ref'.arm := by
  rw [← Bool.not_eq_true, exclusive_iff_of_rooted hp hq]
  constructor
  · rintro none ⟨k, i⟩ mem ⟨k', j⟩ mem' rfl
    exact by_contra fun arm => none ⟨k, i, j, mem, mem', arm⟩
  · rintro agree ⟨k, i, j, mem, mem', arm⟩
    exact arm (agree _ mem _ mem' rfl)

end

/-- Outside of a tree the walk misses what is behind the first difference. -/
example : exclusive [⟨1, 0⟩, ⟨3, 0⟩] [⟨2, 0⟩, ⟨3, 1⟩] = false := by decide

/-- Whatever was asked of a context, two records of its histories exclude each other if and only if
some branch is on the paths of both with different arms. -/
theorem exclusive_iff_forked (strict : Bool) (is : List Instruction) {b c : Binding}
    (mb : b ∈ (Walk.conduct strict is).context.table)
    (mc : c ∈ (Walk.conduct strict is).context.table) {x y : AccessRecord} (mx : x ∈ b.history)
    (my : y ∈ c.history) :
    exclusive x.path y.path = true ↔
      ∃ k i j, ⟨k, i⟩ ∈ x.path ∧ ⟨k, j⟩ ∈ y.path ∧ i ≠ j := by
  obtain ⟨around, charted⟩ := Walk.charted_conduct strict is
  have rooted {b : Binding} (mem : b ∈ (Walk.conduct strict is).context.table) :
      ∀ r ∈ b.history, Rooted around r.path := fun r mr =>
    charted.rooted r (Walk.record_mem_events (List.mem_flatMap.mpr ⟨b, mem, mr⟩))
  exact exclusive_iff_of_rooted (rooted mb x mx) (rooted mc y my)

/-- An access to `a` lies in a branch inside the first arm of a branch, and a synchronization point,
which `b` remembers, in another branch inside the second arm.  They exclude each other, because of
the branch around both. -/
theorem exclusive_iff_forked_nested :
    let c := (Walk.conduct false [
      .request (.define "a" .socket .zero), .request (.define "b" .tensor .zero),
      .request .enterBranch, .request .enterBranch, .request .nextArm, .request (.use "a" .zero),
      .request (.exitBranch .zero), .request .nextArm, .request .enterBranch,
      .request (.sync .zero)]).context
    ∃ a ∈ c.table, ∃ b ∈ c.table, ∃ x ∈ a.history, ∃ y ∈ b.history, a.name = "a" ∧ b.name = "b" ∧
      x.path = [⟨1, 0⟩, ⟨2, 1⟩] ∧ y.path = [⟨1, 1⟩, ⟨3, 0⟩] ∧
      ∃ k i j, ⟨k, i⟩ ∈ x.path ∧ ⟨k, j⟩ ∈ y.path ∧ i ≠ j := by
  intro c
  obtain ⟨a, ma, b, mb, x, mx, y, my, nameA, nameB, left, right⟩ :
      ∃ a ∈ c.table, ∃ b ∈ c.table, ∃ x ∈ a.history, ∃ y ∈ b.history, a.name = "a" ∧ b.name = "b" ∧
        x.path = [⟨1, 0⟩, ⟨2, 1⟩] ∧ y.path = [⟨1, 1⟩, ⟨3, 0⟩] := by
    decide +kernel
  have apart : exclusive x.path y.path = true := by
    rw [left, right]
    decide
  exact ⟨a, ma, b, mb, x, mx, y, my, nameA, nameB, left, right,
    (exclusive_iff_forked false _ ma mb mx my).mp apart⟩

end ResourceSafety.Capability
