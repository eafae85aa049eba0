import Mathlib.Data.List.Perm.Subperm
import Mathlib.Data.Set.Basic
import ResourceSafety.Proofs.Ownership.Covering

/-!
# Borrows on one way and on all of them

A record *lends* as much as another one when it has at least as many shared borrows
outstanding, and a mutable one if the other has.  Borrows end by count, the mutable one
first, and so this is kept by whatever happens to both records.  An access that the first
record accepts is accepted by the second one, without any finding (`Record.Lends`).

Arms meet in a record that knows a shared borrow by its place alone.  Two borrows at one
place count as one there, and the joined record may lend less than one of its arms.  A record
without such a repetition is joined into one that lends as much (`mergeRecord_lends`).

Repetitions are excluded by the places at which names were borrowed so far (`Record.Loaned`).
A borrow at a new place is never a repetition, and a join has no borrows but those of its
arms.
-/

namespace ResourceSafety.Ownership

namespace Record

variable {r p : Record}

@[simp] theorem shared_settle (r : Record) : r.settle.shared = r.shared := by
  simp only [settle]
  split <;> rfl

@[simp] theorem mutable_settle (r : Record) : r.settle.mutable = r.mutable := by
  simp only [settle]
  split <;> rfl

/-- The state is the one that the borrows call for. -/
def Settled (r : Record) : Prop := r.state = r.borrowState

theorem Settled.isUsable (h : r.Settled) : r.state.isUsable = true :=
  h ▸ isUsable_borrowState r

theorem settled_settle (usable : r.state.isUsable = true) : r.settle.Settled := by
  simp [Settled, settle, usable, borrowState]

/-! ## Borrows in number -/

/-- A value that is there is refused for the sake of its borrows. -/
theorem Settled.accepts_iff (h : r.Settled) {name : String} {site : Span} {a : Access} :
    r.refusal? name site a = none ↔
      (a = .read ∨ r.mutable = none ∧ (a = .borrow false ∨ r.shared = [])) := by
  have usable := h.isUsable
  cases a with
  | read => simp [refusal?, usable]
  | move =>
    rw [Settled, borrowState] at h
    cases hm : r.mutable <;> cases hs : r.shared <;> simp [hm, hs] at h <;> simp [refusal?, h]
  | borrow exclusive =>
    cases hm : r.mutable <;> cases hs : r.shared <;> cases exclusive <;>
      simp [refusal?, usable, hm, hs]

/-- The mutable borrow ends first. -/
theorem released {r' : Record} (h : r.release? = some r') : r'.mutable = none ∧
    r'.shared = (if r.mutable.isSome then r.shared else r.shared.dropLast) ∧
    (r.Settled → r'.Settled) := by
  simp only [release?] at h
  split at h
  next held =>
    cases h
    refine ⟨by simp, by simp [held], fun settled => settled_settle settled.isUsable⟩
  next free =>
    split at h
    · cases h
    · cases h
      refine ⟨?_, by simp [free], fun settled => settled_settle settled.isUsable⟩
      simpa using free

/-- Both values are there, and the first record has at least the borrows of the second. -/
structure Outlends (r p : Record) : Prop where
  settled : r.Settled
  settled' : p.Settled
  shared : p.shared.length ≤ r.shared.length
  mutable : r.mutable = none → p.mutable = none

/-- While its value is there, the first record has at least the borrows of the second. -/
def Lends (r p : Record) : Prop := r.state.isUsable = true → r.Outlends p

namespace Outlends

/-- What the first record accepts, the second one accepts. -/
theorem accepts (h : r.Outlends p) {name : String} {site : Span} {a : Access}
    (accepted : r.refusal? name site a = none) : p.refusal? name site a = none := by
  obtain rfl | ⟨free, shares⟩ := h.settled.accepts_iff.mp accepted
  · exact h.settled'.accepts_iff.mpr (.inl rfl)
  · refine h.settled'.accepts_iff.mpr (.inr ⟨h.mutable free, shares.imp_right fun none => ?_⟩)
    have less := h.shared
    rw [none] at less
    exact List.length_eq_zero_iff.mp (Nat.le_zero.mp less)

theorem after (h : r.Outlends p) (site : Span) (a : Access) :
    (r.after site a).Lends (p.after site a) := by
  have usable := h.settled.isUsable
  have usable' := h.settled'.isUsable
  cases a with
  | read => exact fun _ => h
  | move =>
    intro there
    cases there
  | borrow exclusive =>
    cases exclusive with
    | true =>
      refine fun _ => ⟨settled_settle usable, settled_settle usable', ?_, ?_⟩
      · simpa [Record.after] using h.shared
      · simp [Record.after]
    | false =>
      refine fun _ => ⟨settled_settle usable, settled_settle usable', ?_, ?_⟩
      · simpa [Record.after] using h.shared
      · simpa [Record.after] using h.mutable

/-- A mutable borrow of the first record alone ends there, and one shared borrow of the
second. -/
theorem release (h : r.Outlends p) {r' p' : Record} (hr : r.release? = some r')
    (hp : p.release? = some p') : r'.Outlends p' := by
  obtain ⟨none, shared, settled⟩ := released hr
  obtain ⟨none', shared', settled'⟩ := released hp
  refine ⟨settled h.settled, settled' h.settled', ?_, fun _ => none'⟩
  have less := h.shared
  rw [shared, shared']
  cases hm : r.mutable with
  | none => simp [h.mutable hm]; omega
  | some s => cases hp : p.mutable <;> simp <;> omega

end Outlends

/-- An access that the first record accepts has no finding in the second. -/
instance : Cautious Lends fun _ => False where
  start _ := ⟨rfl, rfl, Nat.le_refl _, id⟩
  refusal h accepted refused := by
    have accepts := (h (isUsable_of_accepted accepted)).accepts accepted
    cases accepts.symm.trans refused
  after h accepted _ := (h (isUsable_of_accepted accepted)).after _ _
  after_refused h accepted refused := by
    have accepts := (h (isUsable_of_accepted accepted)).accepts accepted
    cases accepts.symm.trans refused
  release h hr hp := by
    intro usable
    rw [isUsable_release hr] at usable
    exact (h usable).release hr hp

/-! ## Joins -/

theorem addSpans_cons (spans more : List Span) (x : Span) :
    addSpans spans (x :: more) =
      addSpans (if spans.contains x then spans else spans ++ [x]) more := rfl

theorem mem_addSpans {spans more : List Span} {s : Span} :
    s ∈ addSpans spans more ↔ s ∈ spans ∨ s ∈ more := by
  induction more generalizing spans with
  | nil => simp [addSpans]
  | cons x more ih =>
    rw [addSpans_cons, ih]
    split <;> grind

theorem nodup_addSpans {spans more : List Span} (h : spans.Nodup) :
    (addSpans spans more).Nodup := by
  induction more generalizing spans with
  | nil => exact h
  | cons x more ih =>
    rw [addSpans_cons]
    refine ih ?_
    split
    · exact h
    next new =>
      refine List.nodup_append_comm.mp (List.nodup_cons.mpr ⟨?_, h⟩)
      exact fun mem => new (List.contains_iff_mem.mpr mem)

/-- Where a value is there, it has the borrows of both arms. -/
theorem borrows_join (r other : Record) :
    (r.join other).state.isUsable = false ∧
        ((r.join other).shared = [] ∨ (r.join other).shared = r.shared) ∨
      (r.join other).Settled ∧ (r.join other).shared = addSpans r.shared other.shared ∧
        (r.join other).mutable = (r.mutable <|> other.mutable) := by
  obtain ⟨-, torn⟩ | ⟨moved, stays⟩ | ⟨here, -, there⟩ := join_cases r other
  · exact .inl ⟨by simp [torn, State.isUsable], .inl (by rw [torn])⟩
  · exact .inl ⟨by simp [stays, moved, State.isUsable], .inr (by rw [stays])⟩
  · rw [there]
    exact .inr ⟨settled_settle here, by simp, by simp⟩

/-- The first record has every borrow of the second. -/
structure Includes (j r : Record) : Prop where
  shared : r.shared ⊆ j.shared
  mutable : j.mutable = none → r.mutable = none

theorem Includes.refl (r : Record) : r.Includes r := ⟨List.Subset.refl _, id⟩

theorem Includes.trans {j : Record} (h : j.Includes r) (h' : r.Includes p) : j.Includes p :=
  ⟨List.Subset.trans h'.shared h.shared, fun free => h'.mutable (h.mutable free)⟩

theorem join_includes {other : Record} (h : (r.join other).state.isUsable = true) :
    (r.join other).Settled ∧ (r.join other).Includes r ∧ (r.join other).Includes other := by
  obtain ⟨gone, -⟩ | ⟨settled, shared, mutable⟩ := borrows_join r other
  · cases gone.symm.trans h
  · refine ⟨settled, ⟨?_, ?_⟩, ⟨?_, ?_⟩⟩
    · exact fun s mem => shared ▸ mem_addSpans.mpr (.inl mem)
    · rw [mutable]
      exact fun free => (Option.or_eq_none_iff.mp (by simpa using free)).1
    · exact fun s mem => shared ▸ mem_addSpans.mpr (.inr mem)
    · rw [mutable]
      exact fun free => (Option.or_eq_none_iff.mp (by simpa using free)).2

/-- Where all values are there, no borrow is lost. -/
theorem foldl_join_includes {ends : List Record} {first : Record}
    (usable : (ends.foldl join first).state.isUsable = true) :
    ∀ x ∈ first :: ends, (ends.foldl join first).Includes x := by
  induction ends generalizing first with
  | nil =>
    intro x mem
    rw [List.mem_singleton.mp mem]
    exact .refl first
  | cons r rest ih =>
    have ⟨joined, _⟩ : (first.join r).state.isUsable = true ∧ _ := isUsable_of_foldl_join usable
    obtain ⟨-, left, right⟩ := join_includes joined
    have met := ih usable (first.join r) List.mem_cons_self
    intro x mem
    obtain rfl | mem := List.mem_cons.mp mem
    · exact met.trans left
    · obtain rfl | mem := List.mem_cons.mp mem
      · exact met.trans right
      · exact ih usable x (List.mem_cons_of_mem _ mem)

theorem settled_foldl_join {ends : List Record} {first : Record}
    (usable : (ends.foldl join first).state.isUsable = true)
    (one : first.Settled ∨ ends ≠ []) : (ends.foldl join first).Settled := by
  induction ends generalizing first with
  | nil => exact one.resolve_right fun none => none rfl
  | cons r rest ih =>
    have ⟨joined, _⟩ : (first.join r).state.isUsable = true ∧ _ := isUsable_of_foldl_join usable
    exact ih usable (.inl (join_includes joined).1)

/-- Arms that agree have the same number of borrows. -/
theorem Outlends.agree {other : Record} (h : r.Outlends p) (alike : r.agrees other = true) :
    other.Outlends p := by
  have state := state_eq_of_agrees alike
  simp only [agrees, Bool.and_eq_true, beq_iff_eq] at alike
  obtain ⟨⟨⟨-, mutable⟩, shared⟩, -⟩ := alike
  have free : r.mutable = none ↔ other.mutable = none := by
    rw [← Option.not_isSome_iff_eq_none, ← Option.not_isSome_iff_eq_none, mutable]
  have empty : r.shared.isEmpty = other.shared.isEmpty := by
    rw [Bool.eq_iff_iff, List.isEmpty_iff_length_eq_zero, List.isEmpty_iff_length_eq_zero, shared]
  refine ⟨?_, h.settled', shared ▸ h.shared, fun none => h.mutable (free.mpr none)⟩
  rw [Settled, ← state, h.settled, borrowState, borrowState, mutable, empty]

end Record

namespace Tracker

/-- Arms meet in a record that lends as much as one of them, if that one has no two shared
borrows at one place. -/
theorem mergeRecord_lends {r : Record} (distinct : r.shared.Nodup) : Joins Record.Lends r := by
  intro id first p rest one h
  have known : r ∈ first :: rest.filterMap (·.lookup id) := by
    obtain rfl | ⟨arm, mem, look⟩ := one
    · exact List.mem_cons_self
    · exact List.mem_cons_of_mem _ (List.mem_filterMap.mpr ⟨arm, mem, look⟩)
  simp only [mergeRecord]
  split
  next alike =>
    obtain rfl | mem := List.mem_cons.mp known
    · exact h
    · have agrees := List.all_eq_true.mp alike r mem
      intro usable
      rw [← Record.state_eq_of_agrees agrees] at usable
      exact (h usable).agree agrees
  next differ =>
    intro usable
    obtain ⟨hf, others⟩ := Record.isUsable_of_foldl_join usable
    have there : r.state.isUsable = true := by
      obtain rfl | mem := List.mem_cons.mp known
      · exact hf
      · exact others r mem
    have outlends := h there
    have includes := Record.foldl_join_includes usable r known
    refine ⟨Record.settled_foldl_join usable (.inr ?_), outlends.settled', ?_, ?_⟩
    · rintro none
      rw [none] at differ
      exact differ rfl
    · exact outlends.shared.trans (List.subperm_of_subset distinct includes.shared).length_le
    · exact fun free => outlends.mutable (includes.mutable free)

end Tracker

/-! ## Places of borrows -/

/-- The shared borrows are at different places, and the name was lent at each of them. -/
structure Record.Loaned (L : Set (String × Span)) (name : String) (r : Record) : Prop where
  distinct : r.shared.Nodup
  known : ∀ s ∈ r.shared, (name, s) ∈ L

namespace Record.Loaned

variable {L L' : Set (String × Span)} {name : String} {r : Record}

theorem start (L : Set (String × Span)) (name : String) : Loaned L name {} :=
  ⟨List.nodup_nil, fun _ mem => absurd mem List.not_mem_nil⟩

theorem mono (h : Loaned L name r) (more : L ⊆ L') : Loaned L' name r :=
  ⟨h.distinct, fun s mem => more (h.known s mem)⟩

/-- A shared borrow at a new place. -/
theorem lend (h : Loaned L name r) {site : Span} (new : (name, site) ∉ L) (more : L ⊆ L')
    (lent : (name, site) ∈ L') : Loaned L' name (r.after site (.borrow false)) := by
  constructor
  · have apart : site ∉ r.shared := fun mem => new (h.known site mem)
    simpa [after] using List.nodup_append_comm.mp (List.nodup_cons.mpr ⟨apart, h.distinct⟩)
  · intro s mem
    simp only [after, shared_settle, List.mem_append, List.mem_singleton] at mem
    obtain mem | rfl := mem
    · exact more (h.known s mem)
    · exact lent

/-- Other accesses lend nothing. -/
theorem after (h : Loaned L name r) {site : Span} {a : Access} (other : a ≠ .borrow false) :
    Loaned L name (r.after site a) := by
  have same : (r.after site a).shared = r.shared := by
    cases a with
    | read | move => rfl
    | borrow exclusive =>
      cases exclusive with
      | true => simp [Record.after]
      | false => exact absurd rfl other
  exact ⟨same ▸ h.distinct, same ▸ h.known⟩

theorem release (h : Loaned L name r) {r' : Record} (hr : r.release? = some r') :
    Loaned L name r' := by
  have shorter : r'.shared.Sublist r.shared := by
    rw [(released hr).2.1]
    split
    · exact .refl _
    · exact List.dropLast_sublist _
  exact ⟨h.distinct.sublist shorter, fun s mem => h.known s (shorter.subset mem)⟩

theorem join (h : Loaned L name r) {other : Record} (h' : Loaned L name other) :
    Loaned L name (r.join other) := by
  obtain ⟨-, none | same⟩ | ⟨-, shared, -⟩ := borrows_join r other
  · exact ⟨none ▸ List.nodup_nil, fun s mem => by simp [none] at mem⟩
  · exact ⟨same ▸ h.distinct, same ▸ h.known⟩
  · refine ⟨shared ▸ nodup_addSpans h.distinct, fun s mem => ?_⟩
    rw [shared, mem_addSpans] at mem
    exact mem.elim (h.known s) (h'.known s)

end Record.Loaned

namespace Tracker

variable {L L' : Set (String × Span)} {t t' : Tracker}

/-- Every record is loaned under its name. -/
def Lent (L : Set (String × Span)) (t : Tracker) : Prop := t.cells.All (Record.Loaned L)

namespace Lent

theorem mono (h : t.Lent L) (more : L ⊆ L') : t.Lent L' := fun c mem => (h c mem).mono more

theorem found (h : t.Lent L) {name : String} {b : Binding} (hb : t.find? name = some b) :
    b.record.Loaned L name := by
  have named : b.name = name := by simpa using List.find?_some hb
  exact named ▸ h b.cell (List.mem_of_find?_eq_some (find?_cells hb))

theorem exit (h : t.Lent L) (ht : t.exit = .ok t') : t'.Lent L := by
  rw [Lent, (cells_exit ht).1]
  exact Cells.All.tail h

theorem define (h : t.Lent L) {name : String} {site : Span} (ht : t.define name site = .ok t') :
    t'.Lent L := by
  rw [Lent, (cells_define ht).1]
  exact Cells.All.add h (.start L name)

theorem access (h : t.Lent L) (n : t.Numbered) {a : Access} {name : String} {site : Span}
    {v : Option Violation} (more : L ⊆ L')
    (new : a = .borrow false → (name, site) ∉ L ∧ (name, site) ∈ L')
    (ht : t.access a name site = .ok (v, t')) : t'.Lent L' := by
  obtain ⟨b, found, -, -, cells⟩ := access_ok n ht
  have loaned := h.found found
  rw [Lent, cells]
  split
  · refine Cells.All.assign (h.mono more) n.distinct (find?_cells found) ?_
    by_cases lends : a = .borrow false
    · subst lends
      exact loaned.lend (new rfl).1 more (new rfl).2
    · exact (loaned.after lends).mono more
  · exact h.mono more

theorem release (h : t.Lent L) (n : t.Numbered) {name : String} {site : Span}
    (ht : t.release name site = .ok t') : t'.Lent L := by
  obtain ⟨b, r, found, ended, -, cells⟩ := release_ok n ht
  rw [Lent, cells]
  exact Cells.All.assign h n.distinct (find?_cells found) ((h.found found).release ended)

/-- Arms meet whose records are loaned. -/
theorem merge (h : t.Lent L) (site : Span) {arms : List Snapshot}
    (alike : ∀ s ∈ arms, ∃ t' : Tracker, s = t'.snapshot ∧ t'.Numbered ∧
      t'.cells.outline = t.cells.outline ∧ t'.Lent L) : (t.merge site arms).Lent L := by
  -- each arm has a cell of the same name under every number
  have known : ∀ s ∈ arms, ∀ c ∈ t.cells.flatten, ∃ r, s.lookup c.id = some r ∧
      r.Loaned L c.name := by
    intro s ms c mc
    obtain ⟨t', rfl, n', same, lent⟩ := alike s ms
    obtain ⟨c', mc', name, look⟩ := exists_lookup_snapshot n' same mc
    exact ⟨c'.value, look, name ▸ lent c' mc'⟩
  cases arms with
  | nil => exact h
  | cons first rest =>
    rw [Lent, cells_merge]
    refine Cells.All.adjust fun c mc => ?_
    obtain ⟨r, look, loaned⟩ := known first List.mem_cons_self c mc
    rw [look]
    refine mergeRecord_of_join (fun _ _ h h' => h.join h') loaned fun arm ma r' look' => ?_
    obtain ⟨r'', look'', loaned'⟩ := known arm (List.mem_cons_of_mem _ ma) c mc
    cases look'.symm.trans look''
    exact loaned'

end Lent

end Tracker

end ResourceSafety.Ownership
