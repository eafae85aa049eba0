import ResourceSafety.Proofs.Capability.Covering

/-!
# What requests to a context come to

Opening and closing never fail in step with the open branches, and no request makes a number
mean another capability (`Level`).
-/

namespace ResourceSafety.Capability.Context

variable {c c' : Context} {name : String} {y : Binding}

/-- The contexts have the same capabilities under the same numbers, and as many open
branches. -/
structure Level (c c' : Context) : Prop where
  numbered : c'.Numbered
  held : c'.cells.outline = c.cells.outline
  branches : c'.branches.length = c.branches.length

theorem Level.refl (n : c.Numbered) : c.Level c := ⟨n, rfl, rfl⟩

theorem Quiet.level (q : c.Quiet c') (n : c.Numbered)
    (branches : c'.branches.length = c.branches.length) : c.Level c' :=
  ⟨q.numbered n, congrArg Cells.outline q.cells, branches⟩

theorem Adjusts.level {f : Nat → Lifecycle → Lifecycle} (h : c.Adjusts f c') (n : c.Numbered)
    (branches : c'.branches.length = c.branches.length) : c.Level c' :=
  ⟨h.numbered n, by rw [h.cells]; exact Cells.outline_adjust _ _, branches⟩

theorem level_note (n : c.Numbered) (mem : y ∈ c.table) (life : Lifecycle) (kind : AccessKind)
    (site : Span) : c.Level (c.note y life kind site).1 :=
  (adjusts_note n mem life kind site).level n rfl

theorem Acts.level {step : Lifecycle → Lifecycle} {kind : AccessKind} {site : Span}
    {w : Option Violation} (h : c.Acts y step kind site w c') (n : c.Numbered)
    (mem : y ∈ c.table) : c.Level c' := by
  obtain rfl | ⟨-, rfl⟩ := h.changed
  · exact .refl n
  · exact level_note n mem _ _ _

theorem branches_define {kind : CapabilityKind} {site : Span}
    (h : c.define name kind site = .ok c') : c'.branches = c.branches := by
  simp only [define] at h
  split at h
  · cases h
  · split at h
    · cases h
    · cases h
      rfl

theorem length_markSynced (branches : List OpenBranch) :
    (markSynced branches).length = branches.length := by
  cases branches <;> rfl

theorem level_sync (n : c.Numbered) (site : Span) : c.Level (c.sync site) :=
  (quiet_sync c site).level n (length_markSynced c.branches)

/-- With a branch open, the next arm of it begins. -/
theorem exists_nextArm (n : c.Numbered) (inside : c.branches ≠ []) :
    ∃ c', c.nextArm = .ok c' ∧ c.Level c' := by
  cases branches : c.branches with
  | nil => exact absurd branches inside
  | cons b rest =>
    have next : ∃ c', c.nextArm = .ok c' ∧ c'.branches.length = c.branches.length := by
      simp [nextArm, branches]
    obtain ⟨c', next, length⟩ := next
    exact ⟨c', next, (quiet_nextArm next).level n length⟩

/-- With a branch open, it can be closed. -/
theorem exists_exitBranch (n : c.Numbered) (inside : c.branches ≠ []) (site : Span) :
    ∃ c', c.exitBranch site = .ok c' ∧ c'.Numbered ∧ c'.cells.outline = c.cells.outline ∧
      c'.branches.length + 1 = c.branches.length := by
  cases branches : c.branches with
  | nil => exact absurd branches inside
  | cons b rest =>
    have exit : ∃ c', c.exitBranch site = .ok c' ∧ c'.branches.length = rest.length := by
      simp only [exitBranch, branches]
      split
      · exact ⟨_, rfl, length_markSynced rest⟩
      · exact ⟨_, rfl, rfl⟩
    obtain ⟨c', exit, length⟩ := exit
    have quiet := quiet_exitBranch exit
    exact ⟨c', exit, quiet.numbered n, congrArg Cells.outline quiet.cells, by simp [length]⟩

end ResourceSafety.Capability.Context
