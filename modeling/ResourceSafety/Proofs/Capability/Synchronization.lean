import ResourceSafety.Proofs.Capability.Scan
import ResourceSafety.Proofs.Capability.Walk
import Mathlib.Data.Finset.Card
import Mathlib.Data.Finset.Range

/-!
# Where executions synchronize

A marker at the end of a branch stands for the synchronizations on its arms.
The invariant `Walk.Sound` keeps track of them.

* Every marker of a history is in the journal, and sequence numbers grow along
  each history.
* When the end of a branch is a synchronization point, each of its arms has a
  marker of its own: one of a request, or one at the end of an inner branch.
* A record that is made while a branch is open lies on one of its arms.

From this follows `Walk.Sound.exists_call`: an execution that passes the marker
at the end of a branch has made a synchronization request inside the branch.
The request need not come after an access on the same arm, though.  So the
marker may separate two accesses that nothing synchronizes, and the main
statement, `exists_race_of_unsynchronized`, sets the ends of branches around the
earlier access apart.
-/

namespace ResourceSafety.Capability

/-- The arms around a point inside open branches, outermost first. -/
def armsAround (bs : List OpenBranch) : ArmPath := (bs.map (·.here)).reverse

theorem armsAround_cons (b : OpenBranch) (outer : List OpenBranch) :
    armsAround (b :: outer) = armsAround outer ++ [b.here] := by
  simp [armsAround]

theorem here_mem_path {c : Context} {b : OpenBranch} (hb : b ∈ c.branches) : b.here ∈ c.path := by
  simpa [Context.path] using ⟨b, hb, rfl⟩

namespace Walk

variable {w w' : Walk} {opened : Nat → Nat}

/-! ## The invariant -/

/-- Arm `i` of branch `k`, which stands at `p` and was opened at `s`, has a marker
of its own before `t`.  It is the marker of a request or of a later branch. -/
def Marked (w : Walk) (s : Nat) (p : ArmPath) (k i t : Nat) : Prop :=
  ∃ m : AccessRecord, m.path = p ++ [⟨k, i⟩] ∧ s < m.seq ∧ m.seq < t ∧
    (m ∈ w.calls ∨ ∃ k', k < k' ∧ (k', m) ∈ w.joins)

/-- What is known of branch `k`, opened at `s`, whose end left the marker `m`. -/
structure Closed (w : Walk) (s k : Nat) (m : AccessRecord) : Prop where
  several : ⟨k, 1⟩ ∈ w.arms
  within : ∀ r ∈ w.context.records, s < r.seq → r.seq < m.seq → ∃ i, ⟨k, i⟩ ∈ r.path
  every : ∀ i, ⟨k, i⟩ ∈ w.arms → w.Marked s m.path k i m.seq

/-- What is known of an open branch that stands at `p` and was opened at `s`. -/
structure Opened (w : Walk) (s : Nat) (p : ArmPath) (b : OpenBranch) : Prop where
  arms : ∀ i, ⟨b.here.branch, i⟩ ∈ w.arms ↔ i ≤ b.here.arm
  within : ∀ r ∈ w.context.records, s < r.seq → ∃ i, ⟨b.here.branch, i⟩ ∈ r.path
  current : b.current = true → w.Marked s p b.here.branch b.here.arm (w.context.seq + 1)
  synced : ∃ done : Finset Nat, done ⊆ Finset.range b.here.arm ∧ done.card = b.synced ∧
    ∀ i ∈ done, w.Marked s p b.here.branch i (w.context.seq + 1)

/-- What is known of nested open branches, innermost first. -/
def Stack (w : Walk) (opened : Nat → Nat) : List OpenBranch → Prop
  | [] => True
  | b :: outer =>
    w.Opened (opened b.here.branch) (armsAround outer) b ∧
      (∀ o ∈ outer, o.here.branch < b.here.branch) ∧ Stack w opened outer

/-- The invariant of a walk.  Branch `k` was opened when `opened k` records had been
made. -/
structure Sound (w : Walk) (opened : Nat → Nat) : Prop where
  ordered : ∀ b ∈ w.context.table, b.history.Pairwise (·.seq < ·.seq)
  recent : ∀ r ∈ w.context.records, r.seq ≤ w.context.seq
  journaled : ∀ r ∈ w.context.records, r.kind = .sync → r ∈ w.markers
  past : ∀ m ∈ w.markers, m.seq ≤ w.context.seq
  numbered : ∀ ref ∈ w.arms, ref.branch ≤ w.context.branchCount
  openedPast : ∀ k ≤ w.context.branchCount, opened k ≤ w.context.seq
  openedInOrder : ∀ k k', k ≤ k' → k' ≤ w.context.branchCount → opened k ≤ opened k'
  closed : ∀ j ∈ w.joins, w.Closed (opened j.1) j.1 j.2
  apart : ∀ j ∈ w.joins, ∀ b ∈ w.context.branches, b.here.branch ≠ j.1
  stack : w.Stack opened w.context.branches

/-! ## Executions pass a request -/

theorem Sound.le_branchCount (h : w.Sound opened) {j : Nat × AccessRecord} (hj : j ∈ w.joins) :
    j.1 ≤ w.context.branchCount :=
  h.numbered _ (h.closed j hj).several

/-- An execution that passes the marker at the end of a branch has made a
synchronization request since the branch was opened. -/
theorem Sound.exists_call (h : w.Sound opened) {β : Choice} (hβ : β.Admits w.arms) {k : Nat}
    {m : AccessRecord} (hj : (k, m) ∈ w.joins) (hm : β.Takes m.path) :
    ∃ call ∈ w.calls, β.Takes call.path ∧ opened k < call.seq ∧ call.seq < m.seq := by
  -- An arm without a request of its own has an inner branch whose end is a
  -- synchronization point, and that end has an earlier marker.
  induction hn : m.seq using Nat.strong_induction_on generalizing k m with
  | _ n ih =>
      have closed : w.Closed (opened k) k m := h.closed (k, m) hj
      have admits := hβ _ closed.several
      unfold Choice.allows at admits
      cases hk : β k with
      | none => simp [hk, closed.several] at admits
      | some i =>
          simp only [hk, List.contains_iff_mem] at admits
          obtain ⟨m', hpath, hs, hlt, hmark⟩ := closed.every i admits
          have hm' : β.Takes m'.path := by
            rw [hpath, Choice.takes_append, Choice.takes_singleton]
            exact ⟨hm, hk⟩
          rcases hmark with hcall | ⟨k', hlater, hj'⟩
          · exact ⟨m', hcall, hm', hs, by omega⟩
          · obtain ⟨call, hcall, htakes, hopen, hbefore⟩ :=
              ih m'.seq (by omega) hj' hm' rfl
            have hle : opened k ≤ opened k' :=
              h.openedInOrder k k' hlater.le (h.le_branchCount hj')
            exact ⟨call, hcall, htakes, by omega, by omega⟩

/-! ## Growth -/

/-- The journal and the histories only grow, and new records lie on the present
arms of all open branches. -/
structure Grows (w w' : Walk) : Prop where
  calls : ∀ m ∈ w.calls, m ∈ w'.calls
  joins : ∀ j ∈ w.joins, j ∈ w'.joins
  seq : w.context.seq ≤ w'.context.seq
  records : ∀ r ∈ w'.context.records,
    r ∈ w.context.records ∨ (w.context.seq < r.seq ∧ ∀ b ∈ w.context.branches, b.here ∈ r.path)

theorem Marked.grows {s k i t t' : Nat} {p : ArmPath} (h : w.Marked s p k i t)
    (g : w.Grows w') (ht : t ≤ t') : w'.Marked s p k i t' := by
  obtain ⟨m, hpath, hs, hlt, hmark⟩ := h
  refine ⟨m, hpath, hs, by omega, ?_⟩
  rcases hmark with hcall | ⟨k', hlater, hj⟩
  · exact Or.inl (g.calls m hcall)
  · exact Or.inr ⟨k', hlater, g.joins _ hj⟩

theorem Closed.grows {s k : Nat} {m : AccessRecord} (h : w.Closed s k m) (g : w.Grows w')
    (past : m.seq ≤ w.context.seq) (arms : ∀ i, ⟨k, i⟩ ∈ w'.arms ↔ ⟨k, i⟩ ∈ w.arms) :
    w'.Closed s k m where
  several := (arms 1).mpr h.several
  within := by
    intro r hr hs hlt
    rcases g.records r hr with hold | ⟨hnew, -⟩
    · exact h.within r hold hs hlt
    · omega
  every i hi := (h.every i ((arms i).mp hi)).grows g le_rfl

theorem Opened.grows {s : Nat} {p : ArmPath} {b : OpenBranch} (h : w.Opened s p b)
    (g : w.Grows w') (hb : b ∈ w.context.branches)
    (arms : ∀ i, ⟨b.here.branch, i⟩ ∈ w'.arms ↔ ⟨b.here.branch, i⟩ ∈ w.arms) :
    w'.Opened s p b where
  arms i := (arms i).trans (h.arms i)
  within := by
    intro r hr hs
    rcases g.records r hr with hold | ⟨-, hpath⟩
    · exact h.within r hold hs
    · exact ⟨b.here.arm, hpath b hb⟩
  current hc := (h.current hc).grows g (Nat.succ_le_succ g.seq)
  synced := by
    obtain ⟨done, hsub, hcard, hmarked⟩ := h.synced
    exact ⟨done, hsub, hcard, fun i hi => (hmarked i hi).grows g (Nat.succ_le_succ g.seq)⟩

theorem Stack.grows {bs : List OpenBranch} (h : w.Stack opened bs) (g : w.Grows w')
    (hbs : ∀ b ∈ bs, b ∈ w.context.branches)
    (arms : ∀ b ∈ bs, ∀ i, ⟨b.here.branch, i⟩ ∈ w'.arms ↔ ⟨b.here.branch, i⟩ ∈ w.arms) :
    w'.Stack opened bs := by
  induction bs with
  | nil => trivial
  | cons b outer ih =>
      obtain ⟨hb, hlater, houter⟩ := h
      exact ⟨hb.grows g (hbs b List.mem_cons_self) (arms b List.mem_cons_self), hlater,
        ih houter (fun o ho => hbs o (List.mem_cons_of_mem _ ho))
          (fun o ho => arms o (List.mem_cons_of_mem _ ho))⟩

theorem Stack.congr {opened' : Nat → Nat} {bs : List OpenBranch} (h : w.Stack opened bs)
    (heq : ∀ b ∈ bs, opened' b.here.branch = opened b.here.branch) : w.Stack opened' bs := by
  induction bs with
  | nil => trivial
  | cons b outer ih =>
      obtain ⟨hb, hlater, houter⟩ := h
      refine ⟨?_, hlater, ih houter fun o ho => heq o (List.mem_cons_of_mem _ ho)⟩
      rw [heq b List.mem_cons_self]
      exact hb

/-- The numbers of open branches are among those given out. -/
theorem Stack.le_branchCount {bs : List OpenBranch} (h : w.Stack opened bs)
    (numbered : ∀ ref ∈ w.arms, ref.branch ≤ w.context.branchCount) :
    ∀ b ∈ bs, b.here.branch ≤ w.context.branchCount := by
  induction bs with
  | nil => exact fun b hb => absurd hb List.not_mem_nil
  | cons b outer ih =>
      obtain ⟨hb, -, houter⟩ := h
      intro o ho
      rcases List.mem_cons.mp ho with rfl | ho
      · exact numbered ⟨o.here.branch, 0⟩ ((hb.arms 0).mpr (Nat.zero_le _))
      · exact ih houter o ho

/-! ## Records and markers -/

/-- A record that is later than all others keeps the histories in order. -/
theorem Sound.ordered_gains (h : w.Sound opened) {c' : Context} {r : AccessRecord}
    (hr : w.context.seq < r.seq) (g : w.context.Gains r c') :
    ∀ b ∈ c'.table, b.history.Pairwise (·.seq < ·.seq) := by
  intro b' hb'
  rcases g b' hb' with hnil | ⟨b, hb, heq | heq⟩
  · rw [hnil]
    exact .nil
  · rw [heq]
    exact h.ordered b hb
  · rw [heq, List.pairwise_append]
    refine ⟨h.ordered b hb, List.pairwise_singleton _ _, ?_⟩
    intro x hx y hy
    rw [List.mem_singleton.mp hy]
    have := h.recent x (List.mem_flatMap.mpr ⟨b, hb, hx⟩)
    omega

/-- A change that leaves the branches alone keeps what is known of them. -/
theorem Sound.carry (h : w.Sound opened) {c' : Context} (g : w.Grows { w with context := c' })
    (branches : c'.branches = w.context.branches)
    (branchCount : c'.branchCount = w.context.branchCount)
    (ordered : ∀ b ∈ c'.table, b.history.Pairwise (·.seq < ·.seq))
    (recent : ∀ r ∈ c'.records, r.seq ≤ c'.seq)
    (journaled : ∀ r ∈ c'.records, r.kind = .sync → r ∈ w.markers) :
    Sound { w with context := c' } opened where
  ordered := ordered
  recent := recent
  journaled := journaled
  past m hm := (h.past m hm).trans g.seq
  numbered ref href := by
    rw [branchCount]
    exact h.numbered ref href
  openedPast k hk := by
    rw [branchCount] at hk
    exact (h.openedPast k hk).trans g.seq
  openedInOrder k k' hle hk' := by
    rw [branchCount] at hk'
    exact h.openedInOrder k k' hle hk'
  closed j hj :=
    (h.closed j hj).grows g (h.past _ (mem_markers.mpr (Or.inr ⟨j.1, hj⟩))) fun _ => Iff.rfl
  apart := by
    rw [branches]
    exact h.apart
  stack := by
    rw [branches]
    exact h.stack.grows g (fun _ hb => hb) fun _ _ _ => Iff.rfl

theorem Sound.plain (h : w.Sound opened) {c' : Context} (hc : w.context.Plain c') :
    Sound { w with context := c' } opened := by
  rcases hc with idle | ⟨kind, site, hkind, notes⟩
  · refine h.carry ⟨fun _ hm => hm, fun _ hj => hj, idle.seq.ge, ?_⟩ idle.branches
      idle.branchCount ?_ ?_ ?_
    · exact fun r hr => Or.inl (idle.histories.records hr)
    · intro b' hb'
      rcases idle.histories b' hb' with hnil | ⟨b, hb, heq⟩
      · rw [hnil]
        exact .nil
      · rw [heq]
        exact h.ordered b hb
    · intro r hr
      rw [idle.seq]
      exact h.recent r (idle.histories.records hr)
    · exact fun r hr => h.journaled r (idle.histories.records hr)
  · have hseq : w.context.seq ≤ c'.seq := by
      rw [notes.seq]
      exact Nat.le_succ _
    refine h.carry ⟨fun _ hm => hm, fun _ hj => hj, hseq, ?_⟩ notes.branches
      notes.branchCount (h.ordered_gains (Nat.lt_succ_self _) notes.histories) ?_ ?_
    · intro r hr
      rcases notes.histories.records hr with hold | rfl
      · exact Or.inl hold
      · exact Or.inr ⟨Nat.lt_succ_self _, fun b hb => here_mem_path hb⟩
    · intro r hr
      rcases notes.histories.records hr with hold | rfl
      · exact (h.recent r hold).trans hseq
      · exact notes.seq.ge
    · intro r hr hsync
      rcases notes.histories.records hr with hold | rfl
      · exact h.journaled r hold hsync
      · exact absurd hsync hkind

/-- What makes the end of branch `k`, opened at `s`, a synchronization point. -/
structure Ready (w : Walk) (s k : Nat) : Prop where
  several : ⟨k, 1⟩ ∈ w.arms
  within : ∀ r ∈ w.context.records, s < r.seq → ∃ i, ⟨k, i⟩ ∈ r.path
  every : ∀ i, ⟨k, i⟩ ∈ w.arms → w.Marked s w.context.path k i (w.context.seq + 1)
  last : ∀ b ∈ w.context.branches, b.here.branch < k

/-- The walk with a marker left now, by a request or at the end of a branch. -/
def mark (w : Walk) (site : Span) : Option Nat → Walk
  | none =>
    { w with
      context := w.context.sync site, calls := w.calls ++ [w.context.recordNow .sync site] }
  | some k =>
    { w with
      context := w.context.sync site, joins := w.joins ++ [(k, w.context.recordNow .sync site)] }

theorem mark_context (w : Walk) (site : Span) (ending : Option Nat) :
    (w.mark site ending).context = w.context.sync site := by
  cases ending <;> rfl

theorem mark_arms (w : Walk) (site : Span) (ending : Option Nat) :
    (w.mark site ending).arms = w.arms := by
  cases ending <;> rfl

theorem mem_joins_mark {site : Span} {ending : Option Nat} {j : Nat × AccessRecord} :
    j ∈ (w.mark site ending).joins ↔
      j ∈ w.joins ∨ (ending = some j.1 ∧ j.2 = w.context.recordNow .sync site) := by
  obtain ⟨k, m⟩ := j
  cases ending with
  | none => simp [mark]
  | some k' => simp [mark, eq_comm (a := k)]

theorem mem_markers_mark {site : Span} {ending : Option Nat} {m : AccessRecord} :
    m ∈ (w.mark site ending).markers ↔ m ∈ w.markers ∨ m = w.context.recordNow .sync site := by
  cases ending with
  | none => simp [mark, markers, or_comm, or_left_comm]
  | some k => simp [mark, markers, or_assoc]

theorem grows_mark (w : Walk) (site : Span) (ending : Option Nat) :
    w.Grows (w.mark site ending) where
  calls m hm := by
    cases ending with
    | none => exact List.mem_append_left _ hm
    | some k => exact hm
  joins j hj := mem_joins_mark.mpr (Or.inl hj)
  seq := by
    rw [mark_context]
    exact Nat.le_succ _
  records r hr := by
    rw [mark_context] at hr
    rcases (w.context.sync_gains site).records hr with hold | rfl
    · exact Or.inl hold
    · exact Or.inr ⟨Nat.lt_succ_self _, fun b hb => here_mem_path hb⟩

theorem mem_markSynced {bs : List OpenBranch} {b' : OpenBranch}
    (hb' : b' ∈ Context.markSynced bs) : ∃ b ∈ bs, b.here = b'.here := by
  cases bs with
  | nil => cases hb'
  | cons b outer =>
      rcases List.mem_cons.mp hb' with rfl | hb'
      · exact ⟨b, List.mem_cons_self, rfl⟩
      · exact ⟨b', List.mem_cons_of_mem _ hb', rfl⟩

/-- The marker counts for the arm of the innermost open branch. -/
theorem Sound.stack_mark (h : w.Sound opened) (site : Span) {ending : Option Nat}
    (ready : ∀ k, ending = some k → w.Ready (opened k) k) :
    (w.mark site ending).Stack opened (Context.markSynced w.context.branches) := by
  have grown : (w.mark site ending).Stack opened w.context.branches :=
    h.stack.grows (w.grows_mark site ending) (fun _ hb => hb)
      fun _ _ _ => by rw [mark_arms]
  have numbers := h.stack.le_branchCount h.numbered
  cases hbs : w.context.branches with
  | nil => trivial
  | cons b outer =>
      rw [hbs] at grown numbers
      obtain ⟨hb, hlater, houter⟩ := grown
      refine ⟨⟨hb.arms, hb.within, fun _ => ?_, hb.synced⟩, hlater, houter⟩
      refine ⟨w.context.recordNow .sync site, ?_, ?_, ?_, ?_⟩
      · show w.context.path = armsAround outer ++ [b.here]
        rw [← armsAround_cons, ← hbs]
        rfl
      · have := h.openedPast _ (numbers b List.mem_cons_self)
        exact Nat.lt_succ_of_le this
      · rw [mark_context]
        exact Nat.lt_succ_self _
      · cases ending with
        | none => exact Or.inl (List.mem_append_right _ List.mem_cons_self)
        | some k =>
            refine Or.inr ⟨k, (ready k rfl).last b ?_, mem_joins_mark.mpr (Or.inr ⟨rfl, rfl⟩)⟩
            rw [hbs]
            exact List.mem_cons_self

/-- A branch that is ready to end leaves a marker that its arms account for. -/
theorem Ready.closed_mark {s k : Nat} (h : w.Ready s k) (site : Span) :
    (w.mark site (some k)).Closed s k (w.context.recordNow .sync site) where
  several := h.several
  within r hr hs hlt := by
    rcases (w.context.sync_gains site).records hr with hold | rfl
    · exact h.within r hold hs
    · exact absurd hlt (lt_irrefl _)
  every i hi := (h.every i hi).grows (w.grows_mark site (some k)) le_rfl

theorem Sound.mark (h : w.Sound opened) (site : Span) {ending : Option Nat}
    (ready : ∀ k, ending = some k → w.Ready (opened k) k) :
    (w.mark site ending).Sound opened where
  ordered := by
    rw [mark_context]
    exact h.ordered_gains (Nat.lt_succ_self _) (w.context.sync_gains site)
  recent r hr := by
    rw [mark_context] at hr ⊢
    rcases (w.context.sync_gains site).records hr with hold | rfl
    · exact Nat.le_succ_of_le (h.recent r hold)
    · exact le_rfl
  journaled r hr hsync := by
    rw [mark_context] at hr
    rw [mem_markers_mark]
    exact ((w.context.sync_gains site).records hr).imp_left fun hold => h.journaled r hold hsync
  past m hm := by
    rw [mark_context]
    rcases mem_markers_mark.mp hm with hold | rfl
    · exact Nat.le_succ_of_le (h.past m hold)
    · exact le_rfl
  numbered ref href := by
    rw [mark_arms] at href
    rw [mark_context]
    exact h.numbered ref href
  openedPast k hk := by
    rw [mark_context] at hk ⊢
    exact Nat.le_succ_of_le (h.openedPast k hk)
  openedInOrder k k' hle hk' := by
    rw [mark_context] at hk'
    exact h.openedInOrder k k' hle hk'
  closed j hj := by
    rcases mem_joins_mark.mp hj with hold | ⟨rfl, hm⟩
    · exact (h.closed j hold).grows (w.grows_mark site ending)
        (h.past _ (mem_markers.mpr (Or.inr ⟨j.1, hold⟩))) fun i => by rw [mark_arms]
    · rw [hm]
      exact (ready j.1 rfl).closed_mark site
  apart j hj b' hb' := by
    rw [mark_context] at hb'
    obtain ⟨b, hb, heq⟩ := mem_markSynced hb'
    rw [← heq]
    rcases mem_joins_mark.mp hj with hold | ⟨rfl, -⟩
    · exact h.apart j hold b hb
    · exact ((ready j.1 rfl).last b hb).ne
  stack := by
    rw [mark_context]
    exact h.stack_mark site ready

/-! ## Branches -/

/-- The walk with an arm begun and other open branches. -/
def turn (w : Walk) (count : Nat) (bs : List OpenBranch) (begun : List ArmRef) : Walk :=
  { w with
    context := { w.context with branchCount := count, branches := bs }, arms := w.arms ++ begun }

theorem grows_turn (w : Walk) (count : Nat) (bs : List OpenBranch) (begun : List ArmRef) :
    w.Grows (w.turn count bs begun) :=
  ⟨fun _ hm => hm, fun _ hj => hj, le_rfl, fun _ hr => Or.inl hr⟩

/-- Beginning an arm of branch `k` begins no arm of another one. -/
theorem mem_arms_turn {count k n i : Nat} {bs : List OpenBranch} {begun : List ArmRef}
    (hbegun : ∀ ref ∈ begun, ref.branch = k) (hne : n ≠ k) :
    ⟨n, i⟩ ∈ (w.turn count bs begun).arms ↔ ⟨n, i⟩ ∈ w.arms := by
  constructor
  · intro h
    rcases List.mem_append.mp h with hold | hnew
    · exact hold
    · exact absurd (hbegun _ hnew) hne
  · exact fun h => List.mem_append_left _ h

/-- A new branch has the next number and is opened now. -/
theorem Sound.opened_update (h : w.Sound opened) (n n' : Nat) (hle : n ≤ n')
    (hn' : n' ≤ w.context.branchCount + 1) :
    Function.update opened (w.context.branchCount + 1) w.context.seq n ≤
      min w.context.seq
        (Function.update opened (w.context.branchCount + 1) w.context.seq n') := by
  rcases Nat.lt_or_eq_of_le hn' with hlt | heq
  · have hold := h.openedInOrder n n' hle (by omega)
    have hpast := h.openedPast n (by omega)
    rw [Function.update_of_ne (by omega), Function.update_of_ne (by omega)]
    exact le_min hpast hold
  · rw [heq, Function.update_self, min_self]
    rcases Nat.lt_or_eq_of_le (heq ▸ hle) with hlt | heq'
    · rw [Function.update_of_ne (by omega)]
      exact h.openedPast n (by omega)
    · rw [heq', Function.update_self]

theorem Sound.enterBranch (h : w.Sound opened) :
    let k := w.context.branchCount + 1
    (w.turn k ({ here := ⟨k, 0⟩ } :: w.context.branches) [⟨k, 0⟩]).Sound
      (Function.update opened k w.context.seq) := by
  intro k
  have hbegun : ∀ ref ∈ [(⟨k, 0⟩ : ArmRef)], ref.branch = k := by simp
  have older : ∀ n ≤ w.context.branchCount, Function.update opened k w.context.seq n = opened n :=
    fun n hn => Function.update_of_ne (by omega) _ _
  have numbers := h.stack.le_branchCount h.numbered
  have grows := w.grows_turn k ({ here := ⟨k, 0⟩ } :: w.context.branches) [⟨k, 0⟩]
  refine ⟨h.ordered, h.recent, h.journaled, h.past, ?_, ?_, ?_, ?_, ?_, ⟨⟨?_, ?_, ?_, ?_⟩, ?_, ?_⟩⟩
  · intro ref href
    rcases List.mem_append.mp href with hold | hnew
    · exact Nat.le_succ_of_le (h.numbered ref hold)
    · exact (hbegun ref hnew).le
  · exact fun n hn => (h.opened_update n n le_rfl hn).trans (min_le_left _ _)
  · exact fun n n' hle hn' => (h.opened_update n n' hle hn').trans (min_le_right _ _)
  · intro j hj
    have hle := h.le_branchCount hj
    rw [older j.1 hle]
    exact (h.closed j hj).grows grows (h.past _ (mem_markers.mpr (Or.inr ⟨j.1, hj⟩)))
      fun i => mem_arms_turn hbegun (by omega)
  · intro j hj b hb
    have hle := h.le_branchCount hj
    rcases List.mem_cons.mp hb with rfl | hb
    · show k ≠ j.1
      omega
    · exact h.apart j hj b hb
  · intro i
    show ⟨k, i⟩ ∈ w.arms ++ [⟨k, 0⟩] ↔ i ≤ 0
    rw [List.mem_append, List.mem_singleton, ArmRef.mk.injEq]
    constructor
    · rintro (hold | ⟨-, rfl⟩)
      · exact absurd (h.numbered _ hold) (Nat.not_succ_le_self _)
      · exact le_rfl
    · exact fun hi => Or.inr ⟨rfl, Nat.le_zero.mp hi⟩
  · intro r hr hlt
    rw [show Function.update opened k w.context.seq k = w.context.seq from
      Function.update_self _ _ _] at hlt
    exact absurd (h.recent r hr) (not_le.mpr hlt)
  · exact fun hc => nomatch hc
  · exact ⟨∅, Finset.empty_subset _, rfl, fun i hi => absurd hi (Finset.notMem_empty i)⟩
  · exact fun o ho => Nat.lt_succ_of_le (numbers o ho)
  · refine (h.stack.grows grows (fun _ hb => hb) fun b hb i => mem_arms_turn hbegun ?_).congr
      fun b hb => older _ (numbers b hb)
    have := numbers b hb
    omega

/-- The arms that synchronized, once the present one is finished. -/
theorem Opened.finish {s : Nat} {p : ArmPath} {b : OpenBranch} (h : w.Opened s p b) :
    ∃ done : Finset Nat, done ⊆ Finset.range (b.here.arm + 1) ∧
      done.card = (Context.OpenBranch.finishArm b).synced ∧
      ∀ i ∈ done, w.Marked s p b.here.branch i (w.context.seq + 1) := by
  obtain ⟨done, hsub, hcard, hmarked⟩ := h.synced
  have hsub' : done ⊆ Finset.range (b.here.arm + 1) :=
    hsub.trans (Finset.range_subset_range.mpr (Nat.le_succ _))
  cases hc : b.current with
  | false => exact ⟨done, hsub', by simp [Context.OpenBranch.finishArm, hc, hcard], hmarked⟩
  | true =>
      have hnew : b.here.arm ∉ done := fun hmem =>
        absurd (Finset.mem_range.mp (hsub hmem)) (lt_irrefl _)
      refine ⟨insert b.here.arm done, ?_, ?_, ?_⟩
      · exact Finset.insert_subset (Finset.self_mem_range_succ _) hsub'
      · rw [Finset.card_insert_of_notMem hnew, hcard]
        simp [Context.OpenBranch.finishArm, hc]
      · intro i hi
        rcases Finset.mem_insert.mp hi with rfl | hi
        · exact h.current hc
        · exact hmarked i hi

/-- The branch with its next arm begun. -/
def nextArmOf (b : OpenBranch) : OpenBranch :=
  { Context.OpenBranch.finishArm b with here := ⟨b.here.branch, b.here.arm + 1⟩ }

theorem Sound.nextArm (h : w.Sound opened) {b : OpenBranch} {rest : List OpenBranch}
    (hbs : w.context.branches = b :: rest) :
    (w.turn w.context.branchCount (nextArmOf b :: rest)
      [⟨b.here.branch, b.here.arm + 1⟩]).Sound opened := by
  have hbegun : ∀ ref ∈ [(⟨b.here.branch, b.here.arm + 1⟩ : ArmRef)],
      ref.branch = b.here.branch := by simp
  have numbers := h.stack.le_branchCount h.numbered
  have apart := h.apart
  have stack := h.stack
  rw [hbs] at numbers apart stack
  obtain ⟨hb, hlater, houter⟩ := stack
  have grows := w.grows_turn w.context.branchCount (nextArmOf b :: rest)
    [⟨b.here.branch, b.here.arm + 1⟩]
  refine ⟨h.ordered, h.recent, h.journaled, h.past, ?_, h.openedPast, h.openedInOrder, ?_, ?_,
    ⟨⟨?_, hb.within, ?_, ?_⟩, hlater, ?_⟩⟩
  · intro ref href
    rcases List.mem_append.mp href with hold | hnew
    · exact h.numbered ref hold
    · rw [hbegun ref hnew]
      exact numbers b List.mem_cons_self
  · exact fun j hj => (h.closed j hj).grows grows (h.past _ (mem_markers.mpr (Or.inr ⟨j.1, hj⟩)))
      fun i => mem_arms_turn hbegun (apart j hj b List.mem_cons_self).symm
  · intro j hj b' hb'
    rcases List.mem_cons.mp hb' with rfl | hb'
    · exact apart j hj b List.mem_cons_self
    · exact apart j hj b' (List.mem_cons_of_mem _ hb')
  · intro i
    show ⟨b.here.branch, i⟩ ∈ w.arms ++ [⟨b.here.branch, b.here.arm + 1⟩] ↔ i ≤ b.here.arm + 1
    rw [List.mem_append, hb.arms, List.mem_singleton, ArmRef.mk.injEq]
    omega
  · exact fun hc => nomatch hc
  · obtain ⟨done, hsub, hcard, hmarked⟩ := hb.finish
    exact ⟨done, hsub, hcard, fun i hi => (hmarked i hi).grows grows le_rfl⟩
  · refine houter.grows grows (fun o ho => ?_) fun o ho i => mem_arms_turn hbegun ?_
    · rw [hbs]
      exact List.mem_cons_of_mem _ ho
    · exact (hlater o ho).ne

theorem Sound.leaveBranch (h : w.Sound opened) {b : OpenBranch} {rest : List OpenBranch}
    (hbs : w.context.branches = b :: rest) :
    Sound { w with context := { w.context with branches := rest } } opened := by
  have grows : w.Grows { w with context := { w.context with branches := rest } } :=
    ⟨fun _ hm => hm, fun _ hj => hj, le_rfl, fun _ hr => Or.inl hr⟩
  have apart := h.apart
  have stack := h.stack
  rw [hbs] at apart stack
  refine ⟨h.ordered, h.recent, h.journaled, h.past, h.numbered, h.openedPast, h.openedInOrder,
    ?_, ?_, ?_⟩
  · exact fun j hj => (h.closed j hj).grows grows (h.past _ (mem_markers.mpr (Or.inr ⟨j.1, hj⟩)))
      fun _ => Iff.rfl
  · exact fun j hj o ho => apart j hj o (List.mem_cons_of_mem _ ho)
  · refine stack.2.2.grows grows (fun o ho => ?_) fun _ _ _ => Iff.rfl
    rw [hbs]
    exact List.mem_cons_of_mem _ ho

/-- When every arm synchronized, the end of the branch may leave a marker. -/
theorem Sound.ready (h : w.Sound opened) {b : OpenBranch} {rest : List OpenBranch}
    (hbs : w.context.branches = b :: rest) (hsync : b.synchronizes = true) :
    Ready { w with context := { w.context with branches := rest } } (opened b.here.branch)
      b.here.branch := by
  have stack := h.stack
  rw [hbs] at stack
  obtain ⟨hb, hlater, -⟩ := stack
  obtain ⟨hseveral, hall⟩ : 0 < b.here.arm ∧
      (Context.OpenBranch.finishArm b).synced = b.here.arm + 1 := by
    have both := Bool.and_eq_true_iff.mp hsync
    exact ⟨of_decide_eq_true both.1, beq_iff_eq.mp both.2⟩
  obtain ⟨done, hsub, hcard, hmarked⟩ := hb.finish
  have hdone : done = Finset.range (b.here.arm + 1) :=
    Finset.eq_of_subset_of_card_le hsub (by rw [hcard, hall, Finset.card_range])
  refine ⟨(hb.arms 1).mpr hseveral, hb.within, fun i hi => hmarked i ?_, hlater⟩
  rw [hdone, Finset.mem_range]
  exact Nat.lt_succ_of_le ((hb.arms i).mp hi)

/-! ## Runs -/

theorem step_of_isPlain (w : Walk) {q : Request} (h : q.isPlain = true) :
    w.step q = { w with context := w.context.step q } := by
  cases q <;> simp [Request.isPlain, step, newCalls, newJoins, newArms] at h ⊢

theorem step_sync (w : Walk) (site : Span) : w.step (.sync site) = w.mark site none := by
  simp [step, newCalls, newJoins, newArms, mark, Context.step]

theorem step_enterBranch (w : Walk) :
    w.step .enterBranch =
      w.turn (w.context.branchCount + 1)
        ({ here := ⟨w.context.branchCount + 1, 0⟩ } :: w.context.branches)
        [⟨w.context.branchCount + 1, 0⟩] := by
  simp [step, newCalls, newJoins, newArms, turn, Context.step, Context.enterBranch]

theorem step_nextArm {b : OpenBranch} {rest : List OpenBranch}
    (hbs : w.context.branches = b :: rest) :
    w.step .nextArm =
      w.turn w.context.branchCount (nextArmOf b :: rest)
        [⟨b.here.branch, b.here.arm + 1⟩] := by
  simp [step, newCalls, newJoins, newArms, turn, nextArmOf, Context.step, Context.nextArm,
    Context.keepOr, Context.OpenBranch.finishArm, hbs]

theorem step_exitBranch {b : OpenBranch} {rest : List OpenBranch} {site : Span}
    (hbs : w.context.branches = b :: rest) :
    w.step (.exitBranch site) =
      let outside : Walk := { w with context := { w.context with branches := rest } }
      if b.synchronizes then outside.mark site (some b.here.branch) else outside := by
  by_cases hsync : b.synchronizes = true
  · have hif := hsync
    unfold OpenBranch.synchronizes at hif
    simp [step, newCalls, newJoins, newArms, mark, Context.step, Context.exitBranch,
      Context.keepOr, hbs, hsync, hif]
  · have hif := hsync
    unfold OpenBranch.synchronizes at hif
    simp [step, newCalls, newJoins, newArms, Context.step, Context.exitBranch, Context.keepOr,
      hbs, hsync, hif]

theorem Sound.step (h : w.Sound opened) (q : Request) :
    ∃ opened', (w.step q).Sound opened' := by
  by_cases hq : q.isPlain = true
  · rw [step_of_isPlain w hq]
    exact ⟨opened, h.plain (w.context.step_plain hq)⟩
  cases q with
  | sync site =>
      rw [step_sync]
      exact ⟨opened, h.mark site fun k hk => nomatch hk⟩
  | enterBranch =>
      rw [step_enterBranch]
      exact ⟨_, h.enterBranch⟩
  | nextArm =>
      cases hbs : w.context.branches with
      | nil =>
          refine ⟨opened, ?_⟩
          simpa [Walk.step, newCalls, newJoins, newArms, Context.step, Context.nextArm,
            Context.keepOr, hbs] using h
      | cons b rest =>
          rw [step_nextArm hbs]
          exact ⟨opened, h.nextArm hbs⟩
  | exitBranch site =>
      cases hbs : w.context.branches with
      | nil =>
          refine ⟨opened, ?_⟩
          simpa [Walk.step, newCalls, newJoins, newArms, Context.step, Context.exitBranch,
            Context.keepOr, hbs] using h
      | cons b rest =>
          rw [step_exitBranch hbs]
          refine ⟨opened, ?_⟩
          dsimp only
          split
          next hsync =>
            refine (h.leaveBranch hbs).mark site fun k hk => ?_
            cases hk
            exact h.ready hbs hsync
          next => exact h.leaveBranch hbs
  | _ => exact absurd rfl hq

theorem sound_begin (strict : Bool) : Sound { context := .empty strict } fun _ => 0 := by
  constructor <;> simp [Context.empty, Context.records, markers, Stack]

theorem sound_run (strict : Bool) (qs : List Request) : ∃ opened, (run strict qs).Sound opened := by
  have carried : ∀ (w : Walk) (opened : Nat → Nat), w.Sound opened →
      ∃ opened', (qs.foldl Walk.step w).Sound opened' := by
    induction qs with
    | nil => exact fun w opened h => ⟨opened, h⟩
    | cons q rest ih =>
        intro w opened h
        obtain ⟨opened', h'⟩ := h.step q
        exact ih (w.step q) opened' h'
  exact carried _ _ (sound_begin strict)

end Walk

/-! ## Races -/

/-- Records with growing numbers stand in the order of their numbers. -/
theorem sublist_of_seq_lt {history : List AccessRecord} (h : history.Pairwise (·.seq < ·.seq))
    {x y : AccessRecord} (hx : x ∈ history) (hy : y ∈ history) (hlt : x.seq < y.seq) :
    [x, y].Sublist history := by
  induction history with
  | nil => cases hx
  | cons r rest ih =>
      obtain ⟨hfirst, hrest⟩ := List.pairwise_cons.mp h
      rcases List.mem_cons.mp hx with rfl | hx'
      · rcases List.mem_cons.mp hy with rfl | hy'
        · exact absurd hlt (lt_irrefl _)
        · exact List.cons_sublist_cons.mpr (List.singleton_sublist.mpr hy')
      · rcases List.mem_cons.mp hy with rfl | hy'
        · exact absurd (hfirst x hx') (by omega)
        · exact (ih hrest hx' hy').cons r

/-- Two accesses that an execution makes on different threads are reported among the
races of their binding, unless the execution synchronizes between them or passes the end
of a branch that lies around the earlier one and is a synchronization point. -/
theorem exists_race_of_unsynchronized (strict : Bool) (qs : List Request) {b : Binding}
    {x y : AccessRecord} {β : Choice}
    (hb : b ∈ (Walk.run strict qs).context.table) (unshared : b.life.shared = false)
    (hx : x ∈ b.history) (hy : y ∈ b.history) (order : x.seq < y.seq)
    (hxk : x.kind.conflicts = true) (hyk : y.kind.conflicts = true)
    (threads : x.thread ≠ y.thread) (admits : β.Admits (Walk.run strict qs).arms)
    (takesX : β.Takes x.path) (takesY : β.Takes y.path)
    (noCall : ∀ m ∈ (Walk.run strict qs).calls, x.seq < m.seq → m.seq < y.seq → ¬β.Takes m.path)
    (noJoin : ∀ j ∈ (Walk.run strict qs).joins, x.seq < j.2.seq → j.2.seq < y.seq →
      β.Takes j.2.path → ∀ ref ∈ x.path, ref.branch ≠ j.1) :
    ∃ v ∈ Context.racesOf b,
      v ∈ (Walk.run strict qs).context.validate ∧ v.kind = .concurrentUse ∧ v.binding = b.name ∧
        SameThreads v.threads (x.thread, y.thread) := by
  obtain ⟨opened, sound⟩ := Walk.sound_run strict qs
  have sublist := sublist_of_seq_lt (sound.ordered b hb) hx hy order
  have apart : ∀ m ∈ markers b.history, separates x y m = false := by
    intro m hm
    by_contra hsep
    obtain ⟨hafter, hbefore, hpath⟩ : x.seq < m.seq ∧ m.seq < y.seq ∧
        onPath m.path [x.path, y.path] = true := by
      simpa [separates] using hsep
    obtain ⟨hmem, hkind⟩ := List.mem_filter.mp hm
    have takesM : β.Takes m.path := takesX.onPath takesY hpath
    have journaled := sound.journaled m (List.mem_flatMap.mpr ⟨b, hb, hmem⟩) (beq_iff_eq.mp hkind)
    rcases Walk.mem_markers.mp journaled with hcall | ⟨k, hjoin⟩
    · exact noCall m hcall hafter hbefore takesM
    · have outside : x.seq ≤ opened k := by
        by_contra hlate
        obtain ⟨i, hi⟩ := (sound.closed _ hjoin).within x
          (List.mem_flatMap.mpr ⟨b, hb, hx⟩) (not_le.mp hlate) hafter
        exact noJoin (k, m) hjoin hafter hbefore takesM _ hi rfl
      obtain ⟨call, hcall, takesCall, hopen, hlt⟩ := sound.exists_call admits hjoin takesM
      exact noCall call hcall (by omega) (by omega) takesCall
  obtain ⟨v, hv, hkind, hbinding, hthreads⟩ :=
    exists_mem_races b.name sublist hxk hyk threads (takesX.exclusive takesY) apart
  have reported : v ∈ Context.racesOf b := by
    simpa [Context.racesOf, unshared] using hv
  exact ⟨v, reported, List.mem_flatMap.mpr ⟨b, hb, reported⟩, hkind, hbinding, hthreads⟩

/-- One arm of the outer branch synchronizes on every way through it, and the
execution takes the other arm. -/
theorem exists_race_of_unsynchronized_arm :
    let qs : List Request :=
      [.define "x" .socket .zero, .use "x" .zero, .enterBranch, .enterBranch, .sync .zero,
        .nextArm, .sync .zero, .exitBranch .zero, .nextArm, .exitBranch .zero, .enterThread "t",
        .use "x" .zero]
    ∃ b ∈ (Walk.run false qs).context.table, b.name = "x" ∧
      ∃ v ∈ Context.racesOf b,
        v ∈ (Walk.run false qs).context.validate ∧ v.kind = .concurrentUse ∧ v.binding = "x" ∧
          SameThreads v.threads ("main", "t") := by
  intro qs
  obtain ⟨b, hb, hname, unshared, hx, hy⟩ : ∃ b ∈ (Walk.run false qs).context.table,
      b.name = "x" ∧ b.life.shared = false ∧ ⟨1, "main", .zero, .use, []⟩ ∈ b.history ∧
        ⟨5, "t", .zero, .use, []⟩ ∈ b.history := by
    decide
  have reported := exists_race_of_unsynchronized (β := fun k => some (if k = 1 then 1 else 0))
    false qs hb unshared hx hy (by decide) (by decide) (by decide) (by decide) (by decide)
    (by decide) (by decide) (by decide) (by decide)
  rw [hname] at reported
  exact ⟨b, hb, hname, reported⟩

/-- On the first arm nothing synchronizes after the access, but the end of the branch
counts as a synchronization point, so the race with the access behind it is not
reported. -/
theorem race_unreported_after_synchronized_arms :
    let w := Walk.run false
      [.define "x" .socket .zero, .enterBranch, .sync .zero, .enterThread "t", .use "x" .zero,
        .exitThread, .nextArm, .sync .zero, .exitBranch .zero, .use "x" .zero]
    let β : Choice := fun _ => some 0
    (∃ b ∈ w.context.table, ∃ x ∈ b.history, ∃ y ∈ b.history, b.life.shared = false ∧
      x.seq < y.seq ∧ x.kind.conflicts = true ∧ y.kind.conflicts = true ∧ x.thread ≠ y.thread ∧
      β.Admits w.arms ∧ β.Takes x.path ∧ β.Takes y.path ∧
      ∀ m ∈ w.calls, x.seq < m.seq → m.seq < y.seq → ¬β.Takes m.path) ∧
    w.context.validate = [] := by
  decide

end ResourceSafety.Capability
