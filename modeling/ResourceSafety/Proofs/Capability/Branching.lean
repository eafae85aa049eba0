import ResourceSafety.Proofs.Capability.Synchronization

/-!
# Where branches lie

Every branch is opened at one place, and the arms around that place never change.  So the
paths of all records form a tree: the arms before an arm of a branch are the arms around the
branch (`Rooted`).

A branch that has ended is *accounted for*: it has a single arm, or its end was a
synchronization point, or it has an arm on which no marker lies directly.  The count of
finished arms decides this.

The invariant `Charted` is about walks of *instructions*: whatever can be asked of a context,
notes that look like markers and lifecycles that are put back included.
-/

namespace ResourceSafety.Capability

/-- Whatever is asked of a context. -/
inductive Instruction
  | request (q : Request)
  /-- A note in the history of one capability that looks like a marker. -/
  | mark (name : String) (site : Span)
  | restore (s : Snapshot)
  | merge (arms : List Snapshot)

/-! ## Rooted paths -/

/-- The path is one of a tree in which `around k` are the arms around branch `k`. -/
def Rooted (around : Nat → ArmPath) (p : ArmPath) : Prop :=
  ∀ q ref, q ++ [ref] <+: p → q = around ref.branch

/-- The path goes through the branch. -/
def Through (k : Nat) (p : ArmPath) : Prop := ∃ i, ⟨k, i⟩ ∈ p

theorem through_of_mem {ref : ArmRef} {p : ArmPath} (h : ref ∈ p) : Through ref.branch p :=
  ⟨ref.arm, h⟩

namespace Rooted

variable {around around' : Nat → ArmPath} {p q : ArmPath}

theorem nil (around : Nat → ArmPath) : Rooted around [] := by
  intro q ref h
  simpa using h.length_le

theorem of_prefix (h : Rooted around p) (hq : q <+: p) : Rooted around q :=
  fun r ref hr => h r ref (hr.trans hq)

theorem concat (h : Rooted around p) {ref : ArmRef} (root : around ref.branch = p) :
    Rooted around (p ++ [ref]) := by
  intro q ref' hq
  rcases List.prefix_concat_iff.mp hq with heq | hq
  · obtain ⟨rfl, hlast⟩ := List.append_inj' heq rfl
    cases hlast
    exact root.symm
  · exact h q ref' hq

theorem congr (h : Rooted around p) (same : ∀ ref ∈ p, around' ref.branch = around ref.branch) :
    Rooted around' p := by
  intro q ref hq
  rw [same ref (hq.subset (List.mem_append_right _ List.mem_cons_self))]
  exact h q ref hq

/-- A path up to one of its arms. -/
theorem split (h : Rooted around p) {ref : ArmRef} (mem : ref ∈ p) :
    ∃ s, p = around ref.branch ++ ref :: s := by
  obtain ⟨q, s, rfl⟩ := List.append_of_mem mem
  rw [← h q ref ⟨s, by simp⟩]
  exact ⟨s, rfl⟩

theorem exclusive_fork {q s t : ArmPath} {ref ref' : ArmRef} (branch : ref.branch = ref'.branch)
    (arm : ref.arm ≠ ref'.arm) : exclusive (q ++ ref :: s) (q ++ ref' :: t) = true := by
  induction q with
  | nil => simp [exclusive, branch, arm]
  | cons a q ih => simpa [exclusive] using ih

theorem exclusive_self (p : ArmPath) : exclusive p p = false := by
  induction p with
  | nil => rfl
  | cons a p ih => simpa [exclusive] using ih

/-- Paths that do not exclude each other take one arm of a branch. -/
theorem eq_of_branch (h : Rooted around p) (hq : Rooted around q)
    (together : exclusive p q = false) {ref ref' : ArmRef} (mem : ref ∈ p) (mem' : ref' ∈ q)
    (branch : ref.branch = ref'.branch) : ref = ref' := by
  obtain ⟨s, rfl⟩ := h.split mem
  obtain ⟨t, rfl⟩ := hq.split mem'
  by_contra hne
  have arm : ref.arm ≠ ref'.arm := fun heq => hne (by
    cases ref
    cases ref'
    simp_all)
  rw [← branch, exclusive_fork branch arm] at together
  cases together

/-- A path goes through a branch once. -/
theorem unique (h : Rooted around p) {ref ref' : ArmRef} (mem : ref ∈ p) (mem' : ref' ∈ p)
    (branch : ref.branch = ref'.branch) : ref = ref' :=
  h.eq_of_branch h (exclusive_self p) mem mem' branch

/-- No path ends where it goes through a branch for the second time. -/
theorem not_through (h : Rooted around (p ++ [ref])) : ¬Through ref.branch p := by
  rintro ⟨i, hi⟩
  obtain ⟨s, hs⟩ := (h.of_prefix (List.prefix_append p [ref])).split hi
  have root : p = around ref.branch := h p ref (List.prefix_refl _)
  have := congrArg List.length hs
  rw [← root] at this
  simp at this

end Rooted

namespace Walk

/-! ## Walks of instructions -/

/-- The walk after one more instruction.  Only requests are journaled. -/
def heed (w : Walk) : Instruction → Walk
  | .request q => w.step q
  | .mark name site =>
    { w with context := w.context.keepOr (w.context.remark name .sync site) }
  | .restore s => { w with context := w.context.restore s }
  | .merge arms => { w with context := w.context.merge arms }

/-- The walk of instructions to a new context. -/
def conduct (strict : Bool) (is : List Instruction) : Walk :=
  is.foldl heed { context := .empty strict }

/-- All records, and all markers of the journal. -/
def events (w : Walk) : List AccessRecord := w.context.records ++ w.markers

variable {w w' : Walk} {around : Nat → ArmPath}

theorem record_mem_events {r : AccessRecord} (h : r ∈ w.context.records) : r ∈ w.events :=
  List.mem_append_left _ h

theorem marker_mem_events {m : AccessRecord} (h : m ∈ w.markers) : m ∈ w.events :=
  List.mem_append_right _ h

/-! ## The invariant -/

/-- No marker lies directly on arm `i` of branch `k`, which stands at `p`. -/
def Unmarked (w : Walk) (p : ArmPath) (k i : Nat) : Prop := ∀ m ∈ w.markers, m.path ≠ p ++ [⟨k, i⟩]

/-- Once a marker was left inside branch `k`, all records were made inside it. -/
def Inside (w : Walk) (k : Nat) : Prop :=
  ∀ m ∈ w.markers, Through k m.path → ∀ r ∈ w.context.records, m.seq < r.seq → Through k r.path

/-- What is known of an open branch that stands at `p`. -/
structure Underway (w : Walk) (p : ArmPath) (o : OpenBranch) : Prop where
  arms : ∀ i, ⟨o.here.branch, i⟩ ∈ w.arms ↔ i ≤ o.here.arm
  inside : w.Inside o.here.branch
  few : o.synced ≤ o.here.arm
  missing : o.synced < o.here.arm → ∃ i < o.here.arm, w.Unmarked p o.here.branch i
  current : o.current = false → w.Unmarked p o.here.branch o.here.arm

/-- What is known of branch `k`, which stands at `p` and whose end left the marker `m`. -/
structure Joined (w : Walk) (p : ArmPath) (k : Nat) (m : AccessRecord) : Prop where
  path : m.path = p
  several : ⟨k, 1⟩ ∈ w.arms
  closed : ∀ o ∈ w.context.branches, o.here.branch ≠ k
  last : ∀ m' ∈ w.markers, Through k m'.path → m'.seq < m.seq ∧
    ∀ r ∈ w.context.records, m'.seq < r.seq → Through k r.path ∨ r = m ∨ m.seq < r.seq

/-- A history misses no marker that was left since its first record and before the frame was
closed. -/
def Complete (w : Walk) (b : Binding) : Prop :=
  ∀ x ∈ b.history, ∀ m ∈ w.markers, x.seq < m.seq →
    m ∈ b.history ∨ (b.frame ∉ w.context.frames ∧ ∀ y ∈ b.history, y.seq ≤ m.seq)

/-- What is known of all records, markers and branches. -/
structure Surveyed (w : Walk) (around : Nat → ArmPath) : Prop where
  ordered : ∀ b ∈ w.context.table, b.history.Pairwise (·.seq < ·.seq)
  kinds : ∀ m ∈ w.markers, m.kind = .sync
  recent : ∀ r ∈ w.events, r.seq ≤ w.context.seq
  rooted : ∀ r ∈ w.events, Rooted around r.path
  begun : ∀ r ∈ w.events, r.path ⊆ w.arms
  here : Rooted around w.context.path
  numbered : ∀ ref ∈ w.arms, ref.branch ≤ w.context.branchCount
  underway : ∀ o ∈ w.context.branches, w.Underway (around o.here.branch) o
  joined : ∀ j ∈ w.joins, w.Joined (around j.1) j.1 j.2
  frames : ∀ f ∈ w.context.frames, f < w.context.nextFrame
  placed : ∀ b ∈ w.context.table, b.frame < w.context.nextFrame
  complete : ∀ b ∈ w.context.table, w.Complete b

/-- Branch `k`, which stands at `p`, is open, or it has a single arm, or its end was a
synchronization point, or no marker lies directly on one of its arms. -/
def Accounted (w : Walk) (p : ArmPath) (k : Nat) : Prop :=
  (∃ o ∈ w.context.branches, o.here.branch = k) ∨ ⟨k, 1⟩ ∉ w.arms ∨ (∃ m, (k, m) ∈ w.joins) ∨
    ∃ i, ⟨k, i⟩ ∈ w.arms ∧ w.Unmarked p k i

/-- The invariant of a walk. -/
structure Charted (w : Walk) (around : Nat → ArmPath) : Prop extends w.Surveyed around where
  accounted : ∀ ref ∈ w.arms, w.Accounted (around ref.branch) ref.branch

/-! ## Open branches -/

theorem through_path {k : Nat} :
    Through k w.context.path ↔ ∃ o ∈ w.context.branches, o.here.branch = k := by
  constructor
  · rintro ⟨i, hi⟩
    obtain ⟨o, ho, heq⟩ : ∃ o ∈ w.context.branches, o.here = ⟨k, i⟩ := by
      simpa [Context.path] using hi
    exact ⟨o, ho, by rw [heq]⟩
  · rintro ⟨o, ho, rfl⟩
    exact through_of_mem (here_mem_path ho)

theorem path_eq_concat {b : OpenBranch} {rest : List OpenBranch}
    (hbs : w.context.branches = b :: rest) : w.context.path = armsAround rest ++ [b.here] := by
  rw [← armsAround_cons, ← hbs]
  rfl

/-- The innermost open branch stands in the arms of the others. -/
theorem Surveyed.around_eq (h : w.Surveyed around) {b : OpenBranch} {rest : List OpenBranch}
    (hbs : w.context.branches = b :: rest) : around b.here.branch = armsAround rest :=
  (h.here (armsAround rest) b.here (path_eq_concat hbs ▸ List.prefix_refl _)).symm

/-- The innermost open branch is none of the others. -/
theorem Surveyed.branch_ne (h : w.Surveyed around) {b : OpenBranch} {rest : List OpenBranch}
    (hbs : w.context.branches = b :: rest) {o : OpenBranch} (ho : o ∈ rest) :
    o.here.branch ≠ b.here.branch := by
  have rooted := h.here
  rw [path_eq_concat hbs] at rooted
  intro heq
  refine rooted.not_through ⟨o.here.arm, ?_⟩
  rw [← heq]
  simpa [armsAround] using ⟨o, ho, rfl⟩

end Walk

end ResourceSafety.Capability
