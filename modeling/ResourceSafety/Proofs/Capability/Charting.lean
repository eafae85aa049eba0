import ResourceSafety.Proofs.Capability.Branching

/-!
# Branches are accounted for

`Charted` holds of every walk of instructions (`charted_conduct`).

* A record of an access changes nothing that is known of the branches (`Surveyed.files`).
* A marker lies directly on one arm only, the present arm of the innermost open branch.  The
  other arms, and all branches that are closed, keep the arms that have none (`Surveyed.leave`).
* At the end of an arm the count of synchronized arms falls behind exactly when one more arm
  has no marker directly on it (`Underway.finish`).
-/

namespace ResourceSafety.Capability

namespace Walk

variable {w w' : Walk} {around : Nat → ArmPath}

/-! ## Records of accesses -/

theorem mem_records_of_files {new : Option AccessRecord} {c c' : Context} (h : c.Files new c')
    {r : AccessRecord} (hr : r ∈ c'.records) : r ∈ c.records ∨ new = some r := by
  cases new with
  | none => exact Or.inl (h.idle.histories.records hr)
  | some r' => exact (h.gains.records hr).imp_right fun heq => congrArg some heq.symm

theorem Surveyed.path_begun (h : w.Surveyed around) : w.context.path ⊆ w.arms := by
  intro ref href
  obtain ⟨o, ho, rfl⟩ : ∃ o ∈ w.context.branches, o.here = ref := by
    simpa [Context.path] using href
  exact ((h.underway o ho).arms o.here.arm).mpr le_rfl

theorem Surveyed.marker_le (h : w.Surveyed around) {m : AccessRecord} (hm : m ∈ w.markers) :
    m.seq ≤ w.context.seq :=
  h.recent m (marker_mem_events hm)

theorem Surveyed.join_le (h : w.Surveyed around) {j : Nat × AccessRecord} (hj : j ∈ w.joins) :
    j.2.seq ≤ w.context.seq :=
  h.marker_le (mem_markers.mpr (Or.inr ⟨j.1, hj⟩))

section

variable {c' : Context} {new : Option AccessRecord} (h : w.Surveyed around)
  (hfiles : w.context.Files new c')

include h hfiles

/-- A new record stands behind the others of its history. -/
theorem Surveyed.ordered_files (later : ∀ r, new = some r → w.context.seq < r.seq) :
    ∀ b' ∈ c'.table, b'.history.Pairwise (·.seq < ·.seq) := by
  intro b' hb'
  rcases hfiles.table b' hb' with ⟨hnil, -⟩ | ⟨b, hb, -, heq | ⟨r, hr, -, heq⟩⟩
  · rw [hnil]
    exact .nil
  · rw [heq]
    exact h.ordered b hb
  · rw [heq, List.pairwise_append]
    refine ⟨h.ordered b hb, List.pairwise_singleton _ _, fun x hx y hy => ?_⟩
    rw [List.mem_singleton.mp hy]
    exact (h.recent x (record_mem_events (List.mem_flatMap.mpr ⟨b, hb, hx⟩))).trans_lt (later r hr)

/-- A new record lies inside every open branch. -/
theorem Surveyed.underway_files (here : ∀ r, new = some r → r.path = w.context.path)
    {o : OpenBranch} (ho : o ∈ c'.branches) :
    Underway { w with context := c' } (around o.here.branch) o := by
  rw [hfiles.branches] at ho
  have known := h.underway o ho
  refine ⟨known.arms, fun m hm through r hr hlt => ?_, known.few, known.missing, known.current⟩
  rcases mem_records_of_files hfiles hr with hold | hnew
  · exact known.inside m hm through r hold hlt
  · rw [here r hnew]
    exact through_path.mpr ⟨o, ho, rfl⟩

/-- A new record comes after the marker at the end of a branch. -/
theorem Surveyed.joined_files (later : ∀ r, new = some r → w.context.seq < r.seq)
    {j : Nat × AccessRecord} (hj : j ∈ w.joins) :
    Joined { w with context := c' } (around j.1) j.1 j.2 := by
  have known := h.joined j hj
  refine ⟨known.path, known.several, fun o ho => known.closed o (hfiles.branches ▸ ho),
    fun m hm through => ⟨(known.last m hm through).1, fun r hr hlt => ?_⟩⟩
  rcases mem_records_of_files hfiles hr with hold | hnew
  · exact (known.last m hm through).2 r hold hlt
  · exact Or.inr (Or.inr ((h.join_le hj).trans_lt (later r hnew)))

/-- A new record comes after all markers, and a frame that is closed is not opened again. -/
theorem Surveyed.complete_files (later : ∀ r, new = some r → w.context.seq < r.seq) :
    ∀ b' ∈ c'.table, Complete { w with context := c' } b' := by
  intro b' hb' x hx m hm hlt
  rcases hfiles.table b' hb' with ⟨hnil, -⟩ | ⟨b, hb, hframe, heq | ⟨r, hr, hopen, heq⟩⟩
  · rw [hnil] at hx
    cases hx
  · rw [heq] at hx ⊢
    refine (h.complete b hb x hx m hm hlt).imp_right fun closed => ⟨?_, closed.2⟩
    rw [hframe]
    intro hf
    rcases hfiles.frames _ hf with hold | ⟨hnext, -⟩
    · exact closed.1 hold
    · exact (h.placed b hb).ne hnext
  · rw [heq] at hx ⊢
    rcases List.mem_append.mp hx with hx | hx
    · rcases h.complete b hb x hx m hm hlt with hmem | ⟨hclosed, -⟩
      · exact Or.inl (List.mem_append_left _ hmem)
      · exact absurd hopen hclosed
    · rw [List.mem_singleton.mp hx] at hlt
      exact absurd ((later r hr).trans hlt) (h.marker_le hm).not_gt

/-- A change that makes at most a record of now, and leaves the branches alone. -/
theorem Surveyed.files
    (now : ∀ r, new = some r → ∃ kind site, r = w.context.recordNow kind site) :
    Surveyed { w with context := c' } around := by
  have seq : c'.seq = w.context.seq + new.toList.length := hfiles.seq
  have later : ∀ r, new = some r → w.context.seq < r.seq := by
    rintro r hr
    obtain ⟨kind, site, rfl⟩ := now r hr
    exact Nat.lt_succ_self _
  have here : ∀ r, new = some r → r.path = w.context.path := by
    rintro r hr
    obtain ⟨kind, site, rfl⟩ := now r hr
    rfl
  have events : ∀ r ∈ Walk.events { w with context := c' }, r ∈ w.events ∨ new = some r := by
    intro r hr
    rcases List.mem_append.mp hr with hr | hr
    · exact (mem_records_of_files hfiles hr).imp_left record_mem_events
    · exact Or.inl (marker_mem_events hr)
  refine ⟨h.ordered_files hfiles later, h.kinds, fun r hr => ?_, fun r hr => ?_, fun r hr => ?_, ?_,
    fun ref href => ?_, fun o => h.underway_files hfiles here, fun j => h.joined_files hfiles later,
    fun f hf => ?_, fun b' hb' => ?_, h.complete_files hfiles later⟩
  · show r.seq ≤ c'.seq
    rw [seq]
    rcases events r hr with hold | hnew
    · exact (h.recent r hold).trans (Nat.le_add_right _ _)
    · obtain ⟨kind, site, rfl⟩ := now r hnew
      rw [hnew]
      exact le_rfl
  · rcases events r hr with hold | hnew
    · exact h.rooted r hold
    · rw [here r hnew]
      exact h.here
  · rcases events r hr with hold | hnew
    · exact h.begun r hold
    · rw [here r hnew]
      exact h.path_begun
  · show Rooted around ((c'.branches.map (·.here)).reverse)
    rw [hfiles.branches]
    exact h.here
  · show _ ≤ c'.branchCount
    rw [hfiles.branchCount]
    exact h.numbered ref href
  · rcases hfiles.frames f hf with hold | ⟨-, hlt⟩
    · exact (h.frames f hold).trans_le hfiles.nextFrame
    · exact hlt
  · rcases hfiles.table b' hb' with ⟨-, hframe⟩ | ⟨b, hb, hframe, -⟩
    · exact (h.frames _ hframe).trans_le hfiles.nextFrame
    · rw [hframe]
      exact (h.placed b hb).trans_le hfiles.nextFrame

end

theorem Accounted.files {p : ArmPath} {k : Nat} (h : w.Accounted p k) {c' : Context}
    {new : Option AccessRecord} (files : w.context.Files new c') :
    Accounted { w with context := c' } p k := by
  refine h.imp_left fun ⟨o, ho, heq⟩ => ⟨o, ?_, heq⟩
  show o ∈ c'.branches
  rw [files.branches]
  exact ho

theorem Charted.files (h : w.Charted around) {c' : Context} {new : Option AccessRecord}
    (files : w.context.Files new c')
    (now : ∀ r, new = some r → ∃ kind site, r = w.context.recordNow kind site) :
    Charted { w with context := c' } around :=
  ⟨h.toSurveyed.files files now, fun ref href => (h.accounted ref href).files files⟩

/-! ## Markers -/

/-- Branch `k` ends here, and every record since the first marker inside it lies in it. -/
structure Ending (w : Walk) (around : Nat → ArmPath) (k : Nat) : Prop where
  root : around k = w.context.path
  several : ⟨k, 1⟩ ∈ w.arms
  inside : w.Inside k
  closed : ∀ o ∈ w.context.branches, o.here.branch ≠ k

theorem mark_path (w : Walk) (site : Span) (ending : Option Nat) :
    (w.mark site ending).context.path = w.context.path := by
  rw [mark_context]
  show ((Context.markSynced w.context.branches).map (·.here)).reverse =
    (w.context.branches.map (·.here)).reverse
  cases w.context.branches <;> rfl

/-- A marker lies directly on no arm but the present one of the innermost open branch. -/
theorem Unmarked.mark {site : Span} {ending : Option Nat} {p : ArmPath} {k i : Nat}
    (h : w.Unmarked p k i) (elsewhere : w.context.path ≠ p ++ [⟨k, i⟩]) :
    (w.mark site ending).Unmarked p k i := by
  intro m hm
  rcases mem_markers_mark.mp hm with hold | rfl
  · exact h m hold
  · exact elsewhere

/-- The walk of which `mark` remembers the marker. -/
theorem Surveyed.sync (h : w.Surveyed around) (site : Span) :
    Surveyed
      { w with context := { w.context.sync site with branches := w.context.branches } } around :=
  h.files (w.context.files_sync site) fun _ hr => ⟨.sync, site, (Option.some.inj hr).symm⟩

theorem Underway.mark (h : w.Surveyed around) (site : Span) (ending : Option Nat) {o' : OpenBranch}
    (ho' : o' ∈ Context.markSynced w.context.branches) :
    (w.mark site ending).Underway (around o'.here.branch) o' := by
  -- a later arm than the present one is not begun, so the marker lies on none but that
  have elsewhere : ∀ o ∈ w.context.branches, ∀ i ≠ o.here.arm,
      w.context.path ≠ around o.here.branch ++ [⟨o.here.branch, i⟩] := by
    intro o ho i hne heq
    have present : (⟨o.here.branch, i⟩ : ArmRef) ∈ w.context.path := by simp [heq]
    exact hne (congrArg ArmRef.arm (h.here.unique present (here_mem_path ho) rfl))
  have known : ∀ o ∈ w.context.branches, ∀ current,
      (current = false → w.context.path ≠ around o.here.branch ++ [o.here] ∧ o.current = false) →
      (w.mark site ending).Underway (around o.here.branch) { o with current := current } := by
    intro o ho current hcurrent
    have old := h.underway o ho
    refine ⟨fun i => ?_, fun m hm through r hr hlt => ?_, old.few, fun hfew => ?_, fun hc => ?_⟩
    · rw [mark_arms]
      exact old.arms i
    · rw [mark_context] at hr
      rcases mem_markers_mark.mp hm with hold | rfl
      · exact ((h.sync site).underway o ho).inside m hold through r hr hlt
      · exact absurd hlt ((h.sync site).recent r (record_mem_events hr)).not_gt
    · obtain ⟨i, hi, unmarked⟩ := old.missing hfew
      exact ⟨i, hi, unmarked.mark (elsewhere o ho i hi.ne)⟩
    · exact (old.current (hcurrent hc).2).mark (hcurrent hc).1
  cases hbs : w.context.branches with
  | nil =>
      rw [hbs] at ho'
      cases ho'
  | cons b rest =>
      rw [hbs] at ho' known
      rcases List.mem_cons.mp ho' with rfl | hrest
      · exact known b List.mem_cons_self true fun hc => nomatch hc
      · refine known o' (List.mem_cons_of_mem _ hrest) o'.current fun hc => ⟨fun heq => ?_, hc⟩
        rw [path_eq_concat hbs] at heq
        have last := List.singleton_inj.mp (List.append_inj' heq rfl).2
        exact h.branch_ne hbs hrest (congrArg ArmRef.branch last.symm)

theorem Joined.mark (h : w.Surveyed around) (site : Span) {ending : Option Nat}
    (ended : ∀ k, ending = some k → w.Ending around k) {j : Nat × AccessRecord}
    (hj : j ∈ (w.mark site ending).joins) : (w.mark site ending).Joined (around j.1) j.1 j.2 := by
  have closed : ∀ o ∈ w.context.branches, o.here.branch ≠ j.1 := by
    rcases mem_joins_mark.mp hj with hold | ⟨rfl, -⟩
    · exact (h.joined j hold).closed
    · exact (ended j.1 rfl).closed
  have outside : ¬Through j.1 w.context.path := by
    rw [through_path]
    rintro ⟨o, ho, heq⟩
    exact closed o ho heq
  have closed' : ∀ o ∈ (w.mark site ending).context.branches, o.here.branch ≠ j.1 := by
    intro o ho
    rw [mark_context] at ho
    obtain ⟨o', ho', heq⟩ := mem_markSynced ho
    rw [← heq]
    exact closed o' ho'
  rcases mem_joins_mark.mp hj with hold | ⟨hending, hm⟩
  · have known := (h.sync site).joined j hold
    refine ⟨known.path, ?_, closed', fun m hm through => ?_⟩
    · rw [mark_arms]
      exact known.several
    · rw [mark_context]
      rcases mem_markers_mark.mp hm with hold' | rfl
      · exact known.last m hold' through
      · exact absurd through outside
  · have ends := ended j.1 hending
    rw [hm]
    refine ⟨ends.root.symm, ?_, closed', fun m hm through => ?_⟩
    · rw [mark_arms]
      exact ends.several
    · rcases mem_markers_mark.mp hm with hold | rfl
      · refine ⟨Nat.lt_succ_of_le (h.marker_le hold), fun r hr hlt => ?_⟩
        rw [mark_context] at hr
        rcases (w.context.sync_gains site).records hr with hold' | rfl
        · exact Or.inl (ends.inside m hold through r hold' hlt)
        · exact Or.inr (Or.inl rfl)
      · exact absurd through outside

/-- The marker stands in the history of every open frame, and in the journal. -/
theorem Surveyed.mark (h : w.Surveyed around) (site : Span) {ending : Option Nat}
    (ended : ∀ k, ending = some k → w.Ending around k) :
    (w.mark site ending).Surveyed around := by
  have synced := h.sync site
  have events : ∀ r ∈ (w.mark site ending).events,
      r ∈ Walk.events { w with context := w.context.sync site } ∨
        r = w.context.recordNow .sync site := by
    intro r hr
    rcases List.mem_append.mp hr with hr | hr
    · rw [mark_context] at hr
      exact Or.inl (List.mem_append_left _ hr)
    · exact (mem_markers_mark.mp hr).imp_left marker_mem_events
  refine ⟨?_, fun m hm => ?_, fun r hr => ?_, fun r hr => ?_, fun r hr => ?_, ?_, ?_, ?_, ?_, ?_,
    ?_, ?_⟩
  · rw [mark_context]
    exact synced.ordered
  · rcases mem_markers_mark.mp hm with hold | rfl
    · exact h.kinds m hold
    · rfl
  · rw [mark_context]
    rcases events r hr with hold | rfl
    · exact synced.recent r hold
    · exact le_rfl
  · rcases events r hr with hold | rfl
    · exact synced.rooted r hold
    · exact h.here
  · rw [mark_arms]
    rcases events r hr with hold | rfl
    · exact synced.begun r hold
    · exact h.path_begun
  · rw [mark_path]
    exact h.here
  · rw [mark_context, mark_arms]
    exact synced.numbered
  · intro o ho
    rw [mark_context] at ho
    exact Underway.mark h site ending ho
  · exact fun j hj => Joined.mark h site ended hj
  · rw [mark_context]
    exact synced.frames
  · rw [mark_context]
    exact synced.placed
  · intro b' hb' x hx m hm hlt
    rw [mark_context] at hb' ⊢
    rcases mem_markers_mark.mp hm with hold | rfl
    · exact synced.complete b' hb' x hx m hold hlt
    · obtain ⟨b, hb, rfl⟩ := List.mem_map.mp hb'
      split
      next => exact Or.inl (List.mem_append_right _ List.mem_cons_self)
      next hclosed =>
        refine Or.inr ⟨fun hopen => hclosed (List.contains_iff_mem.mpr hopen), fun y hy => ?_⟩
        exact Nat.le_succ_of_le
          (h.recent y (record_mem_events (List.mem_flatMap.mpr ⟨b, hb, hy⟩)))

theorem Accounted.mark {p : ArmPath} {k : Nat} (h : w.Accounted p k) (site : Span)
    (ending : Option Nat) : (w.mark site ending).Accounted p k := by
  have still : (∃ o ∈ w.context.branches, o.here.branch = k) →
      ∃ o ∈ (w.mark site ending).context.branches, o.here.branch = k := by
    rintro ⟨o, ho, heq⟩
    rw [mark_context]
    show ∃ o ∈ Context.markSynced w.context.branches, o.here.branch = k
    cases hbs : w.context.branches with
    | nil =>
        rw [hbs] at ho
        cases ho
    | cons b rest =>
        rw [hbs] at ho
        rcases List.mem_cons.mp ho with rfl | ho
        · exact ⟨_, List.mem_cons_self, heq⟩
        · exact ⟨o, List.mem_cons_of_mem _ ho, heq⟩
  rcases h with hopen | hsingle | ⟨m, hm⟩ | ⟨i, hi, unmarked⟩
  · exact Or.inl (still hopen)
  · rw [← mark_arms w site ending] at hsingle
    exact Or.inr (Or.inl hsingle)
  · exact Or.inr (Or.inr (Or.inl ⟨m, mem_joins_mark.mpr (Or.inl hm)⟩))
  · by_cases hopen : Through k w.context.path
    · exact Or.inl (still (through_path.mp hopen))
    · refine Or.inr (Or.inr (Or.inr ⟨i, ?_, unmarked.mark fun heq => hopen ⟨i, ?_⟩⟩))
      · rw [mark_arms]
        exact hi
      · simp [heq]

/-! ## Branches -/

/-- Beginning an arm of one branch changes nothing for the others. -/
theorem Underway.turn {p : ArmPath} {o : OpenBranch} (h : w.Underway p o) {count k : Nat}
    {bs : List OpenBranch} {begun : List ArmRef} (hbegun : ∀ ref ∈ begun, ref.branch = k)
    (hne : o.here.branch ≠ k) : (w.turn count bs begun).Underway p o :=
  ⟨fun i => (mem_arms_turn hbegun hne).trans (h.arms i), h.inside, h.few, h.missing, h.current⟩

theorem Joined.turn {p : ArmPath} {k : Nat} {m : AccessRecord} (h : w.Joined p k m) {count : Nat}
    {bs : List OpenBranch} {begun : List ArmRef} (closed : ∀ o ∈ bs, o.here.branch ≠ k) :
    (w.turn count bs begun).Joined p k m :=
  ⟨h.path, List.mem_append_left _ h.several, closed, h.last⟩

theorem Accounted.turn {p : ArmPath} {k n : Nat} (h : w.Accounted p n) {count : Nat}
    {bs : List OpenBranch} {begun : List ArmRef} (hbegun : ∀ ref ∈ begun, ref.branch = k)
    (hopen : ∃ o ∈ bs, o.here.branch = k)
    (still : ∀ o ∈ w.context.branches, ∃ o' ∈ bs, o'.here.branch = o.here.branch) :
    (w.turn count bs begun).Accounted p n := by
  by_cases hn : n = k
  · rw [hn]
    exact Or.inl hopen
  rcases h with ⟨o, ho, rfl⟩ | hsingle | hjoined | ⟨i, hi, unmarked⟩
  · exact Or.inl (still o ho)
  · exact Or.inr (Or.inl fun hmem => hsingle ((mem_arms_turn hbegun hn).mp hmem))
  · exact Or.inr (Or.inr (Or.inl hjoined))
  · exact Or.inr (Or.inr (Or.inr ⟨i, List.mem_append_left _ hi, unmarked⟩))

/-- The present place is on the arms of the branch that is opened next. -/
theorem Charted.enterBranch (h : w.Charted around) :
    let k := w.context.branchCount + 1
    (w.turn k ({ here := ⟨k, 0⟩ } :: w.context.branches) [⟨k, 0⟩]).Charted
      (Function.update around k w.context.path) := by
  intro k
  have hbegun : ∀ ref ∈ [(⟨k, 0⟩ : ArmRef)], ref.branch = k := by simp
  have ne : ∀ ref ∈ w.arms, ref.branch ≠ k := fun ref href =>
    (Nat.lt_succ_of_le (h.numbered ref href)).ne
  have older : ∀ ref ∈ w.arms,
      Function.update around k w.context.path ref.branch = around ref.branch :=
    fun ref href => Function.update_of_ne (ne ref href) _ _
  have new : ∀ m ∈ w.markers, ¬Through k m.path := by
    rintro m hm ⟨i, hi⟩
    exact ne _ (h.begun m (marker_mem_events hm) hi) rfl
  have openArm : ∀ o ∈ w.context.branches, o.here ∈ w.arms := fun o ho =>
    h.path_begun (here_mem_path ho)
  refine ⟨⟨h.ordered, h.kinds, h.recent, ?_, ?_, ?_, ?_, ?_, ?_, h.frames, h.placed, h.complete⟩, ?_⟩
  · exact fun r hr => (h.rooted r hr).congr fun ref href => older ref (h.begun r hr href)
  · exact fun r hr ref href => List.mem_append_left _ (h.begun r hr href)
  · show Rooted _ (armsAround ({ here := ⟨k, 0⟩ } :: w.context.branches))
    rw [armsAround_cons]
    exact (h.here.congr fun ref href => older ref (h.path_begun href)).concat
      (Function.update_self _ _ _)
  · intro ref href
    rcases List.mem_append.mp href with hold | hnew
    · exact Nat.le_succ_of_le (h.numbered ref hold)
    · exact (hbegun ref hnew).le
  · intro o ho
    rcases List.mem_cons.mp ho with rfl | ho
    · refine ⟨fun i => ?_, fun m hm through => absurd through (new m hm), le_rfl,
        fun hlt => absurd hlt (lt_irrefl _), fun _ m hm heq => new m hm ⟨0, ?_⟩⟩
      · show ⟨k, i⟩ ∈ w.arms ++ [⟨k, 0⟩] ↔ i ≤ 0
        rw [List.mem_append, List.mem_singleton, ArmRef.mk.injEq]
        constructor
        · rintro (hold | ⟨-, rfl⟩)
          · exact absurd rfl (ne _ hold)
          · exact le_rfl
        · exact fun hi => Or.inr ⟨rfl, Nat.le_zero.mp hi⟩
      · rw [heq]
        exact List.mem_append_right _ List.mem_cons_self
    · rw [older _ (openArm o ho)]
      exact (h.underway o ho).turn hbegun (ne _ (openArm o ho))
  · intro j hj
    have known := h.joined j hj
    have hne : j.1 ≠ k := ne _ known.several
    rw [Function.update_of_ne hne]
    refine known.turn fun o ho => ?_
    rcases List.mem_cons.mp ho with rfl | ho
    · exact hne.symm
    · exact known.closed o ho
  · intro ref href
    have opened : ∃ o ∈ { here := ⟨k, 0⟩ } :: w.context.branches, o.here.branch = k :=
      ⟨{ here := ⟨k, 0⟩ }, List.mem_cons_self, rfl⟩
    rcases List.mem_append.mp href with hold | hnew
    · rw [older ref hold]
      exact (h.accounted ref hold).turn hbegun opened fun o ho =>
        ⟨o, List.mem_cons_of_mem _ ho, rfl⟩
    · rw [hbegun ref hnew]
      exact Or.inl opened

/-- When the present arm is finished, the count of synchronized arms falls behind only if
one of the arms has no marker directly on it. -/
theorem Underway.finish {p : ArmPath} {o : OpenBranch} (h : w.Underway p o) :
    (Context.OpenBranch.finishArm o).synced ≤ o.here.arm + 1 ∧
      ((Context.OpenBranch.finishArm o).synced < o.here.arm + 1 →
        ∃ i < o.here.arm + 1, w.Unmarked p o.here.branch i) := by
  have few := h.few
  cases hc : o.current with
  | false =>
      simp only [Context.OpenBranch.finishArm, hc, Bool.false_eq_true, if_false]
      exact ⟨by omega, fun _ => ⟨o.here.arm, Nat.lt_succ_self _, h.current hc⟩⟩
  | true =>
      simp only [Context.OpenBranch.finishArm, hc, if_true]
      refine ⟨by omega, fun hlt => ?_⟩
      obtain ⟨i, hi, unmarked⟩ := h.missing (by omega)
      exact ⟨i, by omega, unmarked⟩

theorem Charted.nextArm (h : w.Charted around) {b : OpenBranch} {rest : List OpenBranch}
    (hbs : w.context.branches = b :: rest) :
    (w.turn w.context.branchCount (nextArmOf b :: rest)
      [⟨b.here.branch, b.here.arm + 1⟩]).Charted around := by
  have hb : b ∈ w.context.branches := hbs ▸ List.mem_cons_self
  have hrest : ∀ o ∈ rest, o ∈ w.context.branches := fun o ho => hbs ▸ List.mem_cons_of_mem _ ho
  have known := h.underway b hb
  have hbegun : ∀ ref ∈ [(⟨b.here.branch, b.here.arm + 1⟩ : ArmRef)],
      ref.branch = b.here.branch := by simp
  refine ⟨⟨h.ordered, h.kinds, h.recent, h.rooted, ?_, ?_, ?_, ?_, ?_, h.frames, h.placed, h.complete⟩, ?_⟩
  · exact fun r hr ref href => List.mem_append_left _ (h.begun r hr href)
  · show Rooted around (armsAround (nextArmOf b :: rest))
    rw [armsAround_cons]
    have outer : Rooted around (armsAround rest) :=
      h.here.of_prefix (path_eq_concat hbs ▸ List.prefix_append _ _)
    have root : around b.here.branch = armsAround rest := h.around_eq hbs
    exact outer.concat root
  · intro ref href
    rcases List.mem_append.mp href with hold | hnew
    · exact h.numbered ref hold
    · rw [hbegun ref hnew]
      exact h.numbered _ (h.path_begun (here_mem_path hb))
  · intro o ho
    rcases List.mem_cons.mp ho with rfl | ho
    · refine ⟨fun i => ?_, known.inside, known.finish.1, known.finish.2, fun _ m hm heq => ?_⟩
      · show ⟨b.here.branch, i⟩ ∈ w.arms ++ [⟨b.here.branch, b.here.arm + 1⟩] ↔ i ≤ b.here.arm + 1
        rw [List.mem_append, known.arms, List.mem_singleton, ArmRef.mk.injEq]
        omega
      · have begun : (⟨b.here.branch, b.here.arm + 1⟩ : ArmRef) ∈ w.arms := by
          refine h.begun m (marker_mem_events hm) ?_
          rw [heq]
          exact List.mem_append_right _ List.mem_cons_self
        exact absurd ((known.arms _).mp begun) (Nat.not_succ_le_self _)
    · exact (h.underway o (hrest o ho)).turn hbegun (h.branch_ne hbs ho)
  · intro j hj
    refine (h.joined j hj).turn fun o ho => ?_
    rcases List.mem_cons.mp ho with rfl | ho
    · exact (h.joined j hj).closed b hb
    · exact (h.joined j hj).closed o (hrest o ho)
  · intro ref href
    have opened : ∃ o ∈ nextArmOf b :: rest, o.here.branch = b.here.branch :=
      ⟨nextArmOf b, List.mem_cons_self, rfl⟩
    rcases List.mem_append.mp href with hold | hnew
    · refine (h.accounted ref hold).turn hbegun opened fun o ho => ?_
      rw [hbs] at ho
      rcases List.mem_cons.mp ho with rfl | ho
      · exact opened
      · exact ⟨o, List.mem_cons_of_mem _ ho, rfl⟩
    · rw [hbegun ref hnew]
      exact Or.inl opened

/-- The walk with the innermost branch closed. -/
def outside (w : Walk) (rest : List OpenBranch) : Walk :=
  { w with context := { w.context with branches := rest } }

theorem Surveyed.leave (h : w.Surveyed around) {b : OpenBranch} {rest : List OpenBranch}
    (hbs : w.context.branches = b :: rest) : (w.outside rest).Surveyed around := by
  have hrest : ∀ o ∈ rest, o ∈ w.context.branches := fun o ho => hbs ▸ List.mem_cons_of_mem _ ho
  refine ⟨h.ordered, h.kinds, h.recent, h.rooted, h.begun, ?_, h.numbered, ?_, ?_, h.frames, h.placed,
    h.complete⟩
  · exact h.here.of_prefix (path_eq_concat hbs ▸ List.prefix_append _ _)
  · intro o ho
    have known := h.underway o (hrest o ho)
    exact ⟨known.arms, known.inside, known.few, known.missing, known.current⟩
  · intro j hj
    have known := h.joined j hj
    exact ⟨known.path, known.several, fun o ho => known.closed o (hrest o ho), known.last⟩

/-- A closed branch is as it was among the others. -/
theorem Accounted.leave {p : ArmPath} {k : Nat} (h : w.Accounted p k) {b : OpenBranch}
    {rest : List OpenBranch} (hbs : w.context.branches = b :: rest) (hne : b.here.branch ≠ k) :
    (w.outside rest).Accounted p k := by
  refine h.imp_left fun ⟨o, ho, heq⟩ => ⟨o, ?_, heq⟩
  rw [hbs] at ho
  rcases List.mem_cons.mp ho with rfl | ho
  · exact absurd heq hne
  · exact ho

theorem synchronizes_iff {b : OpenBranch} : b.synchronizes = true ↔
    0 < b.here.arm ∧ (Context.OpenBranch.finishArm b).synced = b.here.arm + 1 := by
  rw [OpenBranch.synchronizes, Bool.and_eq_true, beq_iff_eq]
  exact and_congr_left' decide_eq_true_iff

/-- A branch whose end is a synchronization point. -/
theorem Surveyed.ending (h : w.Surveyed around) {b : OpenBranch} {rest : List OpenBranch}
    (hbs : w.context.branches = b :: rest) (hsync : b.synchronizes = true) :
    (w.outside rest).Ending around b.here.branch := by
  have known := h.underway b (hbs ▸ List.mem_cons_self)
  exact ⟨h.around_eq hbs, (known.arms 1).mpr (synchronizes_iff.mp hsync).1, known.inside,
    fun o ho => h.branch_ne hbs ho⟩

/-- A branch whose end is no synchronization point has one arm, or an arm on which no marker
lies directly. -/
theorem Surveyed.accounted_leave (h : w.Surveyed around) {b : OpenBranch} {rest : List OpenBranch}
    (hbs : w.context.branches = b :: rest) (hsync : ¬b.synchronizes = true) :
    (w.outside rest).Accounted (around b.here.branch) b.here.branch := by
  have known := h.underway b (hbs ▸ List.mem_cons_self)
  obtain ⟨few, missing⟩ := known.finish
  rcases Nat.eq_zero_or_pos b.here.arm with hsingle | hseveral
  · refine Or.inr (Or.inl fun hmem => ?_)
    exact absurd ((known.arms 1).mp hmem) (by omega)
  · have behind : (Context.OpenBranch.finishArm b).synced < b.here.arm + 1 :=
      Nat.lt_of_le_of_ne few fun heq => hsync (synchronizes_iff.mpr ⟨hseveral, heq⟩)
    obtain ⟨i, hi, unmarked⟩ := missing behind
    exact Or.inr (Or.inr (Or.inr ⟨i, (known.arms i).mpr (Nat.le_of_lt_succ hi), unmarked⟩))

theorem Charted.exitBranch (h : w.Charted around) {b : OpenBranch} {rest : List OpenBranch}
    (hbs : w.context.branches = b :: rest) (site : Span) :
    Charted (if b.synchronizes then (w.outside rest).mark site (some b.here.branch)
      else w.outside rest) around := by
  have others : ∀ ref ∈ w.arms, b.here.branch ≠ ref.branch →
      (w.outside rest).Accounted (around ref.branch) ref.branch :=
    fun ref href hne => (h.accounted ref href).leave hbs hne
  split
  next hsync =>
    refine ⟨(h.leave hbs).mark site fun k hk => ?_, fun ref href => ?_⟩
    · cases hk
      exact h.ending hbs hsync
    · rw [mark_arms] at href
      by_cases heq : b.here.branch = ref.branch
      · rw [← heq]
        exact Or.inr (Or.inr (Or.inl ⟨_, mem_joins_mark.mpr (Or.inr ⟨rfl, rfl⟩)⟩))
      · exact (others ref href heq).mark site _
  next hsync =>
    refine ⟨h.leave hbs, fun ref href => ?_⟩
    by_cases heq : b.here.branch = ref.branch
    · rw [← heq]
      exact h.accounted_leave hbs hsync
    · exact others ref href heq

/-! ## Runs -/

theorem Charted.filesAccess (h : w.Charted around) {c' : Context}
    (access : w.context.FilesAccess c') : Charted { w with context := c' } around := by
  rcases access with files | ⟨kind, site, -, files⟩
  · exact h.files files fun r hr => nomatch hr
  · exact h.files files fun r hr => ⟨kind, site, (Option.some.inj hr).symm⟩

theorem Charted.step (h : w.Charted around) (q : Request) :
    ∃ around', (w.step q).Charted around' := by
  by_cases hq : q.isPlain = true
  · rw [step_of_isPlain w hq]
    exact ⟨around, h.filesAccess (w.context.step_files hq)⟩
  cases q with
  | sync site =>
      rw [step_sync]
      refine ⟨around, h.toSurveyed.mark site fun k hk => (nomatch hk), fun ref href => ?_⟩
      rw [mark_arms] at href
      exact (h.accounted ref href).mark site none
  | enterBranch =>
      rw [step_enterBranch]
      exact ⟨_, h.enterBranch⟩
  | nextArm =>
      cases hbs : w.context.branches with
      | nil =>
          refine ⟨around, ?_⟩
          simpa [Walk.step, newCalls, newJoins, newArms, Context.step, Context.nextArm,
            Context.keepOr, hbs] using h
      | cons b rest =>
          rw [step_nextArm hbs]
          exact ⟨around, h.nextArm hbs⟩
  | exitBranch site =>
      cases hbs : w.context.branches with
      | nil =>
          refine ⟨around, ?_⟩
          simpa [Walk.step, newCalls, newJoins, newArms, Context.step, Context.exitBranch,
            Context.keepOr, hbs] using h
      | cons b rest =>
          rw [step_exitBranch hbs]
          exact ⟨around, h.exitBranch hbs site⟩
  | _ => exact absurd rfl hq

theorem files_restore (c : Context) (s : Snapshot) : c.Files none (c.restore s) := by
  refine c.files_mapBindings fun b => ?_
  split <;> exact ⟨rfl, rfl⟩

theorem files_merge (c : Context) (arms : List Snapshot) : c.Files none (c.merge arms) := by
  cases arms with
  | nil => exact c.files_refl
  | cons first rest =>
      refine c.files_mapBindings fun b => ?_
      split <;> exact ⟨rfl, rfl⟩

theorem Charted.heed (h : w.Charted around) (i : Instruction) :
    ∃ around', (w.heed i).Charted around' := by
  cases i with
  | request q => exact h.step q
  | mark name site =>
      refine ⟨around, ?_⟩
      show Charted { w with context := w.context.keepOr (w.context.remark name .sync site) } around
      cases hr : w.context.remark name .sync site with
      | error f => exact h
      | ok c' =>
          exact h.files (Context.files_remark hr)
            fun r hr => ⟨.sync, site, (Option.some.inj hr).symm⟩
  | restore s => exact ⟨around, h.files (files_restore _ s) fun r hr => nomatch hr⟩
  | merge arms => exact ⟨around, h.files (files_merge _ arms) fun r hr => nomatch hr⟩

theorem charted_begin (strict : Bool) : Charted { context := .empty strict } fun _ => [] := by
  constructor
  · constructor <;> simp [Context.empty, Context.records, markers, events, Rooted.nil, Context.path]
  · simp

theorem charted_conduct (strict : Bool) (is : List Instruction) :
    ∃ around, (conduct strict is).Charted around := by
  have carried : ∀ (w : Walk) (around : Nat → ArmPath), w.Charted around →
      ∃ around', (is.foldl Walk.heed w).Charted around' := by
    induction is with
    | nil => exact fun w around h => ⟨around, h⟩
    | cons i rest ih =>
        intro w around h
        obtain ⟨around', h'⟩ := h.heed i
        exact ih (w.heed i) around' h'
  exact carried _ _ (charted_begin strict)

end Walk

end ResourceSafety.Capability
