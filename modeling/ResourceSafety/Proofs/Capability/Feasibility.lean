import ResourceSafety.Proofs.Capability.Charting

/-!
# Races are feasible

Every race that is reported has an execution: one that makes both accesses and passes no
synchronization request between them (`exists_execution_of_race`).

The execution takes the arms around the two accesses.  Of any other branch it takes an arm on
which no marker lies directly, if there is one; otherwise the end of the branch is a
synchronization point too, and its marker lies further out (`Spares`).  So a request that is
passed leads outwards, from marker to marker, to one that lies on the paths of the two accesses
alone, and such a marker would have kept them apart (`not_takes_of_spares`).
-/

namespace ResourceSafety.Capability

/-- The violation is about an earlier access `x` and a later access `y` to the capability. -/
structure Names (v : Violation) (b : Binding) (x y : AccessRecord) : Prop where
  kind : v.kind = .concurrentUse
  binding : v.binding = b.name
  span : v.span = y.span
  conflict : v.conflict = if x.span.isValid then some x.span else none
  threads : v.threads = (x.thread, y.thread)

theorem names_raceViolation (b : Binding) (a c : WindowedAccess) :
    Names (raceViolation b.name a c) b a.record c.record :=
  ⟨rfl, rfl, rfl, rfl, rfl⟩

namespace Walk

variable {w : Walk} {around : Nat → ArmPath}

/-! ## The execution -/

/-- What an execution may do at branch `k` when the accesses lie outside.  If it then passes a
marker inside the branch, the branch is still open, or its end left a marker too. -/
def Spares (w : Walk) (p : ArmPath) (k : Nat) : Option Nat → Prop
  | none => ⟨k, 1⟩ ∉ w.arms
  | some i => ⟨k, i⟩ ∈ w.arms ∧
    ((∃ o ∈ w.context.branches, o.here.branch = k) ∨ (∃ m, (k, m) ∈ w.joins) ∨ w.Unmarked p k i)

theorem Accounted.exists_spares {p : ArmPath} {k : Nat} (h : w.Accounted p k) {ref : ArmRef}
    (href : ref ∈ w.arms) (branch : ref.branch = k) : ∃ arm, w.Spares p k arm := by
  subst branch
  rcases h with hopen | hsingle | hjoined | ⟨i, hi, unmarked⟩
  · exact ⟨some ref.arm, href, Or.inl hopen⟩
  · exact ⟨none, hsingle⟩
  · exact ⟨some ref.arm, href, Or.inr (Or.inl hjoined)⟩
  · exact ⟨some i, hi, Or.inr (Or.inr unmarked)⟩

theorem Charted.exists_spares (h : w.Charted around) (k : Nat) :
    ∃ arm, w.Spares (around k) k arm := by
  by_cases begun : ∃ ref ∈ w.arms, ref.branch = k
  · obtain ⟨ref, href, branch⟩ := begun
    exact (branch ▸ h.accounted ref href).exists_spares href branch
  · exact ⟨none, fun hmem => begun ⟨_, hmem, rfl⟩⟩

/-- Paths that do not exclude each other are taken together, with all other branches
spared. -/
theorem Charted.exists_choice (h : w.Charted around) {p q : ArmPath} (hp : Rooted around p)
    (hq : Rooted around q) (together : exclusive p q = false) :
    ∃ β : Choice, β.Takes p ∧ β.Takes q ∧
      ∀ k, ¬Through k p → ¬Through k q → w.Spares (around k) k (β k) := by
  have decided : ∀ k, ∃ arm : Option Nat,
      (∀ i, ⟨k, i⟩ ∈ p ∨ ⟨k, i⟩ ∈ q → arm = some i) ∧
        (¬Through k p → ¬Through k q → w.Spares (around k) k arm) := by
    intro k
    by_cases hkp : Through k p
    · obtain ⟨i, hi⟩ := hkp
      refine ⟨some i, fun j hj => congrArg some ?_, fun hno => absurd ⟨i, hi⟩ hno⟩
      rcases hj with hj | hj
      · exact congrArg ArmRef.arm (hp.unique hi hj rfl)
      · exact congrArg ArmRef.arm (hp.eq_of_branch hq together hi hj rfl)
    by_cases hkq : Through k q
    · obtain ⟨i, hi⟩ := hkq
      refine ⟨some i, fun j hj => congrArg some ?_, fun _ hno => absurd ⟨i, hi⟩ hno⟩
      rcases hj with hj | hj
      · exact absurd ⟨j, hj⟩ hkp
      · exact congrArg ArmRef.arm (hq.unique hi hj rfl)
    · obtain ⟨arm, spares⟩ := h.exists_spares k
      exact ⟨arm, fun i hi => (hi.elim (hkp ⟨i, ·⟩) (hkq ⟨i, ·⟩)).elim, fun _ _ => spares⟩
  choose β hβ using decided
  exact ⟨β, fun ref href => (hβ ref.branch).1 ref.arm (Or.inl href),
    fun ref href => (hβ ref.branch).1 ref.arm (Or.inr href), fun k => (hβ k).2⟩

theorem admits_of_spares {β : Choice} {p q : ArmPath} (hp : p ⊆ w.arms) (hq : q ⊆ w.arms)
    (takesP : β.Takes p) (takesQ : β.Takes q)
    (spares : ∀ k, ¬Through k p → ¬Through k q → w.Spares (around k) k (β k)) :
    β.Admits w.arms := by
  have allowed : ∀ {r : ArmPath}, r ⊆ w.arms → β.Takes r → ∀ k, Through k r →
      β.allows w.arms k = true := by
    rintro r hr takes k ⟨i, hi⟩
    have arm : β k = some i := takes _ hi
    simpa [Choice.allows, arm] using hr hi
  intro ref href
  by_cases hkp : Through ref.branch p
  · exact allowed hp takesP _ hkp
  by_cases hkq : Through ref.branch q
  · exact allowed hq takesQ _ hkq
  · have spared := spares ref.branch hkp hkq
    unfold Choice.allows
    cases hb : β ref.branch with
    | none =>
        rw [hb] at spared
        simpa [Spares] using spared
    | some i =>
        rw [hb] at spared
        simpa using spared.1

/-! ## Markers that are passed -/

/-- A marker between two accesses that lies on their paths alone keeps them apart. -/
theorem Surveyed.not_between (h : w.Surveyed around) {b : Binding} {x y : AccessRecord}
    (hb : b ∈ w.context.table) (hx : x ∈ b.history) (hy : y ∈ b.history)
    (apart : ∀ m ∈ Capability.markers b.history, separates x y m = false) {m : AccessRecord}
    (hm : m ∈ w.markers)
    (after : x.seq < m.seq) (before : m.seq < y.seq) : ¬onPath m.path [x.path, y.path] = true := by
  intro on
  rcases h.complete b hb x hx m hm after with hmem | ⟨-, last⟩
  · have kept := apart m (List.mem_filter.mpr ⟨hmem, beq_iff_eq.mpr (h.kinds m hm)⟩)
    simp [separates, after, before, on] at kept
  · exact absurd before (last y hy).not_gt

/-- An execution that takes the last arm of a marker between two accesses goes to neither of them
through the branch of this arm.  The path of an access through the arm has all arms of the
marker. -/
theorem Surveyed.not_through_between (h : w.Surveyed around) {b : Binding} {x y r : AccessRecord}
    (hb : b ∈ w.context.table) (hx : x ∈ b.history) (hy : y ∈ b.history) (hr : r = x ∨ r = y)
    (apart : ∀ m ∈ Capability.markers b.history, separates x y m = false) {m : AccessRecord}
    (hm : m ∈ w.markers) (after : x.seq < m.seq) (before : m.seq < y.seq) {ref : ArmRef}
    (hpath : m.path = around ref.branch ++ [ref]) {β : Choice}
    (arm : β ref.branch = some ref.arm) (takes : β.Takes r.path) :
    ¬Through ref.branch r.path := by
  rintro ⟨i, hi⟩
  have same : some ref.arm = some i := arm.symm.trans (takes _ hi)
  rw [← Option.some.inj same] at hi
  have inside : r ∈ b.history := by
    rcases hr with rfl | rfl
    · exact hx
    · exact hy
  have rooted := h.rooted r (record_mem_events (List.mem_flatMap.mpr ⟨b, hb, inside⟩))
  obtain ⟨s, hs⟩ := rooted.split hi
  refine h.not_between hb hx hy apart hm after before ?_
  rw [onPath, List.all_eq_true]
  intro ref' href'
  have mem : ref' ∈ r.path := by
    rw [hpath, List.mem_append, List.mem_singleton] at href'
    rw [hs, List.mem_append, List.mem_cons]
    exact href'.imp_right Or.inl
  rcases hr with rfl | rfl <;> simp [mem]

/-- An execution that takes the paths of two accesses which no marker keeps apart, and spares
the other branches, passes no marker between them. -/
theorem Surveyed.not_takes_of_spares (h : w.Surveyed around) {b : Binding} {x y : AccessRecord}
    (hb : b ∈ w.context.table) (hx : x ∈ b.history) (hy : y ∈ b.history) (hyk : y.kind ≠ .sync)
    (apart : ∀ m ∈ Capability.markers b.history, separates x y m = false) {β : Choice}
    (takesX : β.Takes x.path)
    (takesY : β.Takes y.path)
    (spares : ∀ k, ¬Through k x.path → ¬Through k y.path → w.Spares (around k) k (β k))
    {m : AccessRecord} (hm : m ∈ w.markers) (after : x.seq < m.seq) (before : m.seq < y.seq) :
    ¬β.Takes m.path := by
  have hyr : y ∈ w.context.records := List.mem_flatMap.mpr ⟨b, hb, hy⟩
  -- the marker at the end of a branch lies further out than one inside it
  induction hn : m.path.length using Nat.strong_induction_on generalizing m with
  | _ n ih =>
      intro takesM
      have rootedM := h.rooted m (marker_mem_events hm)
      rcases m.path.eq_nil_or_concat with hnil | ⟨p, ref, hpath⟩
      · exact h.not_between hb hx hy apart hm after before (by simp [hnil, onPath])
      rw [List.concat_eq_append] at hpath
      have root : p = around ref.branch := rootedM p ref (hpath ▸ List.prefix_refl _)
      have arm : β ref.branch = some ref.arm := takesM ref (by simp [hpath])
      have offX := h.not_through_between hb hx hy (Or.inl rfl) apart hm after before
        (root ▸ hpath) arm takesX
      have offY := h.not_through_between hb hx hy (Or.inr rfl) apart hm after before
        (root ▸ hpath) arm takesY
      have through : Through ref.branch m.path := through_of_mem (by simp [hpath])
      have spared := spares ref.branch offX offY
      rw [arm] at spared
      rcases spared.2 with ⟨o, ho, branch⟩ | ⟨j, hj⟩ | unmarked
      · have inside := (h.underway o ho).inside
        rw [branch] at inside
        exact offY (inside m hm through y hyr before)
      · have joined := h.joined _ hj
        obtain ⟨later, next⟩ := joined.last m hm through
        rcases next y hyr before with hthrough | heq | before'
        · exact offY hthrough
        · exact hyk (heq ▸ h.kinds j (mem_markers.mpr (Or.inr ⟨_, hj⟩)))
        · have outward : j.path = p := joined.path.trans root.symm
          refine ih j.path.length ?_ (mem_markers.mpr (Or.inr ⟨_, hj⟩)) (after.trans later) before'
            rfl ?_
          · rw [← hn, outward, hpath, List.length_append]
            exact Nat.lt_succ_self _
          · rw [hpath, Choice.takes_append] at takesM
            exact outward ▸ takesM.1
      · exact unmarked m hm (by rw [hpath, root])

end Walk

/-! ## Races -/

/-- A reported race is feasible.  The accesses that it names were recorded for one capability
on different threads, and there is an execution that makes both of them and no
synchronization request between them. -/
theorem exists_execution_of_race (strict : Bool) (is : List Instruction) {v : Violation}
    (hv : v ∈ (Walk.conduct strict is).context.validate) :
    ∃ b ∈ (Walk.conduct strict is).context.table, ∃ x ∈ b.history, ∃ y ∈ b.history,
      Names v b x y ∧ x.seq < y.seq ∧ x.kind.conflicts = true ∧ y.kind.conflicts = true ∧
      x.thread ≠ y.thread ∧
      ∃ β : Choice, β.Admits (Walk.conduct strict is).arms ∧ β.Takes x.path ∧ β.Takes y.path ∧
        ∀ m ∈ (Walk.conduct strict is).calls, x.seq < m.seq → m.seq < y.seq →
          ¬β.Takes m.path := by
  obtain ⟨around, charted⟩ := Walk.charted_conduct strict is
  obtain ⟨b, hb, hrace⟩ := List.mem_flatMap.mp hv
  have hrace : v ∈ races b.name b.history := by
    unfold Context.racesOf at hrace
    split at hrace
    · cases hrace
    · exact hrace
  obtain ⟨a, c, rfl, sublist, hconflict⟩ := exists_conflict_of_mem_races hrace
  obtain ⟨⟨threads, together⟩, hapart⟩ :
      (a.record.thread ≠ c.record.thread ∧ exclusive a.record.path c.record.path = false) ∧
        ∀ m ∈ markers b.history, separates a.record c.record m = false := by
    simpa [conflict] using hconflict
  obtain ⟨hx, hxk⟩ := List.mem_filter.mp (sublist.subset List.mem_cons_self)
  obtain ⟨hy, hyk⟩ := List.mem_filter.mp (sublist.subset (List.mem_cons_of_mem _ List.mem_cons_self))
  have order : a.record.seq < c.record.seq := by
    have pair := (charted.ordered b hb).sublist (sublist.trans List.filter_sublist)
    simpa using pair
  have rooted : ∀ r ∈ b.history, Rooted around r.path := fun r hr =>
    charted.rooted r (Walk.record_mem_events (List.mem_flatMap.mpr ⟨b, hb, hr⟩))
  have begun : ∀ r ∈ b.history, r.path ⊆ (Walk.conduct strict is).arms := fun r hr =>
    charted.begun r (Walk.record_mem_events (List.mem_flatMap.mpr ⟨b, hb, hr⟩))
  have access : c.record.kind ≠ .sync := by
    intro hsync
    rw [hsync] at hyk
    cases hyk
  obtain ⟨β, takesX, takesY, spares⟩ :=
    charted.exists_choice (rooted _ hx) (rooted _ hy) together
  exact ⟨b, hb, _, hx, _, hy, names_raceViolation b a c, order, hxk, hyk, threads, β,
    Walk.admits_of_spares (begun _ hx) (begun _ hy) takesX takesY spares, takesX, takesY,
    fun m hm after before => charted.not_takes_of_spares hb hx hy access hapart takesX takesY
      spares (Walk.mem_markers.mpr (Or.inl hm)) after before⟩

/-- The outer branch synchronizes on one arm, and on the other inside an inner branch which
may be left without.  The execution takes that way. -/
theorem exists_execution_of_race_inner :
    let is : List Instruction := [
      .request (.define "x" .socket .zero), .request (.use "x" .zero), .request .enterBranch,
      .request .enterBranch, .request (.sync .zero), .request .nextArm,
      .request (.exitBranch .zero), .request .nextArm, .request (.sync .zero),
      .request (.exitBranch .zero), .request (.enterThread "t"), .request (.use "x" .zero)]
    ∃ v ∈ (Walk.conduct false is).context.validate, v.threads = ("main", "t") ∧
      ∃ b ∈ (Walk.conduct false is).context.table, ∃ x ∈ b.history, ∃ y ∈ b.history,
        Names v b x y ∧ x.seq < y.seq ∧ x.kind.conflicts = true ∧ y.kind.conflicts = true ∧
        x.thread ≠ y.thread ∧
        ∃ β : Choice, β.Admits (Walk.conduct false is).arms ∧ β.Takes x.path ∧ β.Takes y.path ∧
          ∀ m ∈ (Walk.conduct false is).calls, x.seq < m.seq → m.seq < y.seq →
            ¬β.Takes m.path := by
  intro is
  obtain ⟨v, hv, threads⟩ : ∃ v ∈ (Walk.conduct false is).context.validate,
      v.threads = ("main", "t") := by
    decide
  exact ⟨v, hv, threads, exists_execution_of_race false is hv⟩

end ResourceSafety.Capability
