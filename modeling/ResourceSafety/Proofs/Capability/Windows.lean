import ResourceSafety.Proofs.Capability.Exclusion
import ResourceSafety.Proofs.Capability.Feasibility
import ResourceSafety.Proofs.Capability.Latest
import Mathlib.Data.Sym.Sym2

/-!
# One race for each pair of threads and window

The scan for races walks over pairs and remembers keys.  Here it is compared with what the
history alone says: which accesses are in conflict (`Conflicting`), in which window the later one
lies (`windowOf`), and which pair comes first among those of the same threads and window
(`Leads`).  The scan finds one race for every threads and window that have a conflict, the one
that leads, and nothing else (`racesOf_windows`).

Three facts about a walk carry this.  Records are in order, so the latest marker that the scan
sees is the one with the greatest number (`windowAfter_eq`).  Their paths are rooted, so paths
that part do so at a branch (`exclusive_eq_false_iff`).  And pairs are walked over by the later
access and then by the earlier one (`pairwise_precedes`), so what is first with its key leads.
-/

namespace ResourceSafety.Capability

open Context (racesOf)

/-! ## What the history says -/

/-- The marker lies between two accesses, and each of its arms is taken by one of them. -/
def Parts (m x y : AccessRecord) : Prop :=
  x.seq < m.seq ∧ m.seq < y.seq ∧ ∀ ref ∈ m.path, ref ∈ x.path ∨ ref ∈ y.path

instance (m x y : AccessRecord) : Decidable (Parts m x y) := inferInstanceAs (Decidable (_ ∧ _ ∧ _))

/-- The earlier access `x` and the later access `y` may run at once.  They are of different
threads and not on different arms of one branch, and no marker parts them. -/
@[mk_iff]
structure Conflicting (history : List AccessRecord) (x y : AccessRecord) : Prop where
  earlier : x ∈ history ∧ x.kind.conflicts = true
  later : y ∈ history ∧ y.kind.conflicts = true
  order : x.seq < y.seq
  threads : x.thread ≠ y.thread
  together : ∀ ref ∈ x.path, ∀ ref' ∈ y.path, ref.branch = ref'.branch → ref.arm = ref'.arm
  apart : ∀ m ∈ history, m.kind = .sync → ¬Parts m x y

instance (history : List AccessRecord) (x y : AccessRecord) :
    Decidable (Conflicting history x y) :=
  decidable_of_iff' _ (conflicting_iff history x y)

/-- The markers before an access that lie on its path. -/
def guards (history : List AccessRecord) (y : AccessRecord) : List AccessRecord :=
  (markers history).filter fun m => m.seq < y.seq ∧ ∀ ref ∈ m.path, ref ∈ y.path

/-- The number of the latest marker before an access that lies on its path, zero when there is
none. -/
def windowOf (history : List AccessRecord) (y : AccessRecord) : Nat :=
  ((guards history y).map (·.seq)).max?.getD 0

/-- The threads of two accesses, and the window of the later one. -/
def keyOf (history : List AccessRecord) (p : AccessRecord × AccessRecord) : Sym2 ThreadTag × Nat :=
  (s(p.1.thread, p.2.thread), windowOf history p.2)

/-- The accesses conflict, and they come first among those of their key.  What counts is the
later access, and then the earlier one. -/
structure Leads (history : List AccessRecord) (p : AccessRecord × AccessRecord) : Prop where
  conflicting : Conflicting history p.1 p.2
  first : ∀ x y, Conflicting history x y → keyOf history (x, y) = keyOf history p →
    p.2.seq < y.seq ∨ p.2.seq = y.seq ∧ p.1.seq ≤ x.seq

/-! ## Windows -/

/-- Of records in order the last one has the greatest number. -/
theorem max?_map_seq {l : List AccessRecord} (ordered : l.Pairwise (·.seq < ·.seq)) :
    (l.map (·.seq)).max? = l.getLast?.map (·.seq) := by
  obtain rfl | ⟨front, m, rfl⟩ := List.eq_nil_or_concat l
  · rfl
  rw [List.concat_eq_append] at ordered ⊢
  have before := (List.pairwise_append.mp ordered).2.2
  rw [List.getLast?_concat, Option.map_some, List.max?_eq_some_iff]
  refine ⟨by simp, fun n mem => ?_⟩
  obtain ⟨r, mr, rfl⟩ := List.mem_map.mp mem
  obtain old | new := List.mem_append.mp mr
  · exact (before r old m (by simp)).le
  · rw [List.mem_singleton.mp new]

/-- Markers behind an access do not guard it, and those before it do if they lie on its path. -/
theorem guards_split {front back : List AccessRecord} {r : AccessRecord}
    (ordered : (front ++ r :: back).Pairwise (·.seq < ·.seq)) :
    guards (front ++ r :: back) r = (markers front).filter fun m => onPath m.path [r.path] := by
  obtain ⟨-, behind, across⟩ := List.pairwise_append.mp ordered
  have late : guards (r :: back) r = [] := by
    rw [guards, List.filter_eq_nil_iff]
    intro m mem
    have less : ¬m.seq < r.seq := by
      obtain rfl | after := List.mem_cons.mp (List.mem_of_mem_filter mem)
      · exact Nat.lt_irrefl _
      · exact (List.rel_of_pairwise_cons behind after).not_gt
    simp [less]
  rw [guards, markers, List.filter_append, List.filter_append, ← markers, ← markers,
    ← guards.eq_def (r :: back), late, List.append_nil]
  refine List.filter_congr fun m mem => ?_
  have early := across m (List.mem_of_mem_filter mem) r List.mem_cons_self
  rw [Bool.eq_iff_iff]
  simp [onPath, early]

/-- The window of the scan is the one that the history says. -/
theorem windowAfter_eq {front back : List AccessRecord} {r : AccessRecord}
    (ordered : (front ++ r :: back).Pairwise (·.seq < ·.seq)) :
    windowAfter front r = windowOf (front ++ r :: back) r := by
  have growing : (markers front).Pairwise (·.seq < ·.seq) :=
    (List.pairwise_append.mp ordered).1.filter _
  rw [windowOf, guards_split ordered, max?_map_seq (growing.filter _), windowAfter]
  cases List.getLast? _ <;> rfl

/-- An access of the scan is a record, with the window of the records before it. -/
theorem exists_split_of_mem_accessesAfter {before history : List AccessRecord}
    {a : WindowedAccess} (mem : a ∈ accessesAfter before history) :
    ∃ front back, history = front ++ a.record :: back ∧
      a.window = windowAfter (before ++ front) a.record := by
  induction history generalizing before with
  | nil => cases mem
  | cons r rest ih =>
    have there : a = ⟨r, windowAfter before r⟩ ∨ a ∈ accessesAfter (before ++ [r]) rest := by
      rw [accessesAfter] at mem
      split at mem
      · exact List.mem_cons.mp mem
      · exact .inr mem
    obtain rfl | later := there
    · exact ⟨[], rest, rfl, by rw [List.append_nil]⟩
    · obtain ⟨front, back, rfl, window⟩ := ih later
      exact ⟨r :: front, back, rfl, by rw [window, List.append_assoc]; rfl⟩

theorem window_of_mem_accesses {history : List AccessRecord}
    (ordered : history.Pairwise (·.seq < ·.seq)) {a : WindowedAccess} (mem : a ∈ accesses history) :
    a.window = windowOf history a.record := by
  obtain ⟨front, back, rfl, window⟩ := exists_split_of_mem_accessesAfter mem
  rw [window, List.nil_append, windowAfter_eq ordered]

/-! ## Keys -/

/-- Equal keys are of the same threads and the same window. -/
theorem RaceKey.of_eq_iff {a b c d : WindowedAccess} : RaceKey.of a b = RaceKey.of c d ↔
    s(a.record.thread, b.record.thread) = s(c.record.thread, d.record.thread) ∧
      b.window = d.window := by
  have swap (s t : ThreadTag) (n : Nat) : (if t < s then RaceKey.mk t s n else ⟨s, t, n⟩) =
      if s < t then ⟨s, t, n⟩ else ⟨t, s, n⟩ := by
    by_cases less : s < t
    · rw [if_neg (String.lt_asymm less), if_pos less]
    · by_cases greater : t < s
      · rw [if_pos greater, if_neg less]
      · rw [String.le_antisymm greater less]
  rw [Sym2.eq_iff]
  constructor
  · intro same
    have window : (RaceKey.of a b).window = (RaceKey.of c d).window := by rw [same]
    have windows (a b : WindowedAccess) : (RaceKey.of a b).window = b.window := by
      rw [RaceKey.of]
      split <;> rfl
    rw [windows, windows] at window
    exact ⟨by simpa [SameThreads] using RaceKey.sameThreads_of_eq same, window⟩
  · rintro ⟨⟨left, right⟩ | ⟨left, right⟩, window⟩
    · simp only [RaceKey.of, left, right, window]
    · simp only [RaceKey.of, left, right, window, swap c.record.thread]

/-- What is kept is the first with its key. -/
theorem exists_split_of_mem_firstOfKey {seen : List RaceKey}
    {l : List (WindowedAccess × WindowedAccess)} {p : WindowedAccess × WindowedAccess}
    (mem : p ∈ firstOfKey seen l) :
    ∃ front back, l = front ++ p :: back ∧ RaceKey.of p.1 p.2 ∉ keysOf front ++ seen := by
  induction l generalizing seen with
  | nil => cases mem
  | cons q rest ih =>
    rw [firstOfKey] at mem
    split at mem
    next known =>
      obtain ⟨front, back, rfl, new⟩ := ih mem
      refine ⟨q :: front, back, rfl, fun again => ?_⟩
      obtain same | again := List.mem_cons.mp again
      · exact new (List.mem_append_right _ (same ▸ List.contains_iff_mem.mp known))
      · exact new again
    next unknown =>
      obtain rfl | later := List.mem_cons.mp mem
      · exact ⟨[], rest, rfl, fun known => unknown (List.contains_iff_mem.mpr known)⟩
      · obtain ⟨front, back, rfl, new⟩ := ih later
        exact ⟨q :: front, back, rfl, fun again => new (List.perm_middle.mem_iff.mpr again)⟩

/-- No key is kept twice. -/
theorem nodup_keysOf_firstOfKey (seen : List RaceKey) (l : List (WindowedAccess × WindowedAccess)) :
    (keysOf (firstOfKey seen l)).Nodup := by
  induction l generalizing seen with
  | nil => exact .nil
  | cons p rest ih =>
    rw [firstOfKey]
    split
    · exact ih seen
    · refine List.nodup_cons.mpr ⟨fun again => ?_, ih _⟩
      obtain ⟨q, kept, same⟩ := List.mem_map.mp again
      obtain ⟨front, back, -, new⟩ := exists_split_of_mem_firstOfKey kept
      exact new (List.mem_append_right _ (same ▸ List.mem_cons_self))

/-! ## Conflicts -/

section

variable {history : List AccessRecord} {around : Nat → ArmPath}

/-- The scan compares two accesses as the history says. -/
theorem conflict_iff (rooted : ∀ r ∈ history, Rooted around r.path) {a b : WindowedAccess}
    (earlier : a.record ∈ history ∧ a.record.kind.conflicts = true)
    (later : b.record ∈ history ∧ b.record.kind.conflicts = true)
    (order : a.record.seq < b.record.seq) :
    conflict (markers history) a b = true ↔ Conflicting history a.record b.record := by
  have together := exclusive_eq_false_iff (rooted _ earlier.1) (rooted _ later.1)
  have apart : (markers history).any (separates a.record b.record) = false ↔
      ∀ m ∈ history, m.kind = .sync → ¬Parts m a.record b.record := by
    simp [markers, separates, onPath, List.any_eq_false, Parts]
  rw [conflict, Bool.and_eq_true, Bool.and_eq_true, bne_iff_ne, Bool.not_eq_true', Bool.not_eq_true',
    together, apart]
  constructor
  · rintro ⟨⟨threads, together⟩, apart⟩
    exact ⟨earlier, later, order, threads, together, apart⟩
  · intro h
    exact ⟨⟨h.threads, h.together⟩, h.apart⟩

/-- The pairs that the scan finds to conflict are those that the history says. -/
theorem conflicting_iff_mem_conflictsOf (ordered : history.Pairwise (·.seq < ·.seq))
    (rooted : ∀ r ∈ history, Rooted around r.path) {x y : AccessRecord} :
    Conflicting history x y ↔
      ∃ a b, a.record = x ∧ b.record = y ∧ (a, b) ∈ conflictsOf history := by
  constructor
  · intro h
    have sub := sublist_of_seq_lt ordered h.earlier.1 h.later.1 h.order
    obtain ⟨a, b, rfl, rfl, pair⟩ := exists_pair_of_sublist sub h.earlier.2 h.later.2
    refine ⟨a, b, rfl, rfl, List.mem_filter.mpr ⟨pair, ?_⟩⟩
    exact (conflict_iff rooted h.earlier h.later h.order).mpr h
  · rintro ⟨a, b, rfl, rfl, mem⟩
    obtain ⟨pair, conflict⟩ := List.mem_filter.mp mem
    have walked : [a, b].Sublist (accesses history) := by simpa using mem_pairsAfter.mp pair
    have sub := walked.map (·.record)
    rw [map_record_accesses] at sub
    have known : ∀ r ∈ [a.record, b.record], r ∈ history ∧ r.kind.conflicts = true := fun r mem =>
      List.mem_filter.mp (sub.subset mem)
    have order : a.record.seq < b.record.seq := by
      simpa using ordered.sublist (sub.trans List.filter_sublist)
    exact (conflict_iff rooted (known _ (by simp)) (known _ (by simp)) order).mp conflict

end

/-! ## The order of pairs -/

/-- The first pair comes first: by the later access, and then by the earlier one. -/
def Precedes (p q : WindowedAccess × WindowedAccess) : Prop :=
  p.2.record.seq < q.2.record.seq ∨
    p.2.record.seq = q.2.record.seq ∧ p.1.record.seq < q.1.record.seq

theorem pairwise_pairsAfter {earlier l : List WindowedAccess}
    (ordered : (earlier ++ l).Pairwise (·.record.seq < ·.record.seq)) :
    (pairsAfter earlier l).Pairwise Precedes := by
  induction l generalizing earlier with
  | nil => exact .nil
  | cons b rest ih =>
    obtain ⟨before, behind, -⟩ := List.pairwise_append.mp ordered
    rw [pairsAfter, List.pairwise_append]
    refine ⟨List.pairwise_map.mpr (before.imp fun less => .inr ⟨rfl, less⟩), ih ?_, ?_⟩
    · rwa [List.append_assoc]
    · intro p mp q mq
      obtain ⟨a, -, rfl⟩ := List.mem_map.mp mp
      -- the later access of `q` is behind `b`
      have there : q.2 ∈ rest := by
        obtain ⟨-, there⟩ | sub := mem_pairsAfter.mp mq
        · exact there
        · exact sub.subset (by simp)
      exact .inl (List.rel_of_pairwise_cons behind there)

theorem pairwise_conflictsOf {history : List AccessRecord}
    (ordered : history.Pairwise (·.seq < ·.seq)) : (conflictsOf history).Pairwise Precedes := by
  have kept := ordered.filter (·.kind.conflicts)
  rw [← map_record_accesses, List.pairwise_map] at kept
  exact (pairwise_pairsAfter kept).filter _

/-! ## What the scan finds -/

section

variable {history : List AccessRecord} {around : Nat → ArmPath}

/-- The records of a pair. -/
def recordsOfPair (p : WindowedAccess × WindowedAccess) : AccessRecord × AccessRecord :=
  (p.1.record, p.2.record)

/-- The scan gives pairs the same key exactly if the history does. -/
theorem keyOf_eq_iff (ordered : history.Pairwise (·.seq < ·.seq))
    {p q : WindowedAccess × WindowedAccess} (hp : p ∈ conflictsOf history)
    (hq : q ∈ conflictsOf history) :
    keyOf history (recordsOfPair p) = keyOf history (recordsOfPair q) ↔
      RaceKey.of p.1 p.2 = RaceKey.of q.1 q.2 := by
  have window : ∀ r ∈ conflictsOf history, windowOf history r.2.record = r.2.window := by
    intro r mem
    have walked : [r.1, r.2].Sublist (accesses history) := by
      simpa using mem_pairsAfter.mp (List.mem_of_mem_filter mem)
    exact (window_of_mem_accesses ordered (walked.subset (by simp))).symm
  rw [RaceKey.of_eq_iff, keyOf, keyOf, Prod.mk.injEq, recordsOfPair, recordsOfPair, window p hp,
    window q hq]

/-- A pair that is kept leads. -/
theorem leads_of_mem_firstOfKey (ordered : history.Pairwise (·.seq < ·.seq))
    (rooted : ∀ r ∈ history, Rooted around r.path) {p : WindowedAccess × WindowedAccess}
    (kept : p ∈ firstOfKey [] (conflictsOf history)) : Leads history (recordsOfPair p) := by
  have conflicts {x y : AccessRecord} := conflicting_iff_mem_conflictsOf ordered rooted (x := x) (y := y)
  have mem := (firstOfKey_sublist _ _).subset kept
  refine ⟨conflicts.mpr ⟨p.1, p.2, rfl, rfl, mem⟩, fun x y other same => ?_⟩
  obtain ⟨a, b, rfl, rfl, there⟩ := conflicts.mp other
  have same : RaceKey.of a b = RaceKey.of p.1 p.2 := (keyOf_eq_iff ordered there mem).mp same
  obtain ⟨front, back, walk, new⟩ := exists_split_of_mem_firstOfKey kept
  rw [List.append_nil, ← same] at new
  have order := pairwise_conflictsOf ordered
  rw [walk] at there order
  obtain before | behind := List.mem_append.mp there
  · exact absurd (List.mem_map_of_mem before) new
  · obtain rfl | behind := List.mem_cons.mp behind
    · exact .inr ⟨rfl, Nat.le_refl _⟩
    · have precedes := List.rel_of_pairwise_cons (List.pairwise_append.mp order).2.1 behind
      exact precedes.imp id (And.imp_right Nat.le_of_lt)

/-- No key is kept twice. -/
theorem nodup_keyOf_firstOfKey (ordered : history.Pairwise (·.seq < ·.seq)) :
    (((firstOfKey [] (conflictsOf history)).map recordsOfPair).map (keyOf history)).Nodup := by
  have distinct := nodup_keysOf_firstOfKey [] (conflictsOf history)
  rw [keysOf, List.nodup_iff_pairwise_ne, List.pairwise_map] at distinct
  rw [List.map_map, List.nodup_iff_pairwise_ne, List.pairwise_map]
  have there := (firstOfKey_sublist [] (conflictsOf history)).subset
  exact distinct.imp_of_mem fun mp mq differ same =>
    differ ((keyOf_eq_iff ordered (there mp) (there mq)).mp same)

/-- The key of every conflict is kept. -/
theorem keyOf_mem_of_conflicting (ordered : history.Pairwise (·.seq < ·.seq))
    (rooted : ∀ r ∈ history, Rooted around r.path) {x y : AccessRecord}
    (h : Conflicting history x y) : keyOf history (x, y) ∈
      ((firstOfKey [] (conflictsOf history)).map recordsOfPair).map (keyOf history) := by
  obtain ⟨a, b, rfl, rfl, mem⟩ := (conflicting_iff_mem_conflictsOf ordered rooted).mp h
  obtain ⟨a', b', kept, same⟩ := exists_mem_firstOfKey mem (List.not_mem_nil)
  have there := (firstOfKey_sublist _ _).subset kept
  rw [← recordsOfPair.eq_def (a, b), ← (keyOf_eq_iff ordered there mem).mpr same, List.map_map]
  exact List.mem_map_of_mem kept

end

/-- Whatever was asked of a context, the races of an unshared capability are these: for the
threads and the window of each conflict that its history has there is one race, about the conflict
that leads.  There are no others. -/
theorem racesOf_windows (strict : Bool) (is : List Instruction) {b : Binding}
    (mem : b ∈ (Walk.conduct strict is).context.table) (unshared : b.life.shared = false) :
    ∃ pairs : List (AccessRecord × AccessRecord),
      List.Forall₂ (fun v p => Names v b p.1 p.2) (racesOf b) pairs ∧
      (pairs.map (keyOf b.history)).Nodup ∧
      (∀ p ∈ pairs, Leads b.history p) ∧
      ∀ x y, Conflicting b.history x y → keyOf b.history (x, y) ∈ pairs.map (keyOf b.history) := by
  obtain ⟨around, charted⟩ := Walk.charted_conduct strict is
  have ordered := charted.ordered b mem
  have rooted : ∀ r ∈ b.history, Rooted around r.path := fun r mr =>
    charted.rooted r (Walk.record_mem_events (List.mem_flatMap.mpr ⟨b, mem, mr⟩))
  refine ⟨(firstOfKey [] (conflictsOf b.history)).map recordsOfPair, ?_,
    nodup_keyOf_firstOfKey ordered, fun p mp => ?_,
    fun x y => keyOf_mem_of_conflicting ordered rooted⟩
  · rw [racesOf_unshared unshared, races, ← conflictsOf, List.forall₂_map_left_iff,
      List.forall₂_map_right_iff, List.forall₂_same]
    exact fun p _ => names_raceViolation b p.1 p.2
  · obtain ⟨q, kept, rfl⟩ := List.mem_map.mp mp
    exact leads_of_mem_firstOfKey ordered rooted kept

/-- Two threads use `x` before a synchronization point and after it.  Each window has its race, and
the second access of `a` in the first window adds none. -/
theorem racesOf_windows_two :
    let site (line : Int64) := Span.point "" line 1
    let c := (Walk.conduct false [
      .request (.define "x" .socket (site 1)), .request (.use "x" (site 2)),
      .request (.enterThread "a"), .request (.use "x" (site 3)), .request (.use "x" (site 4)),
      .request .exitThread, .request (.sync (site 5)), .request (.use "x" (site 6)),
      .request (.enterThread "a"), .request (.consume "x" (site 7))]).context
    let history : List AccessRecord := [⟨1, "main", site 2, .use, []⟩, ⟨2, "a", site 3, .use, []⟩,
      ⟨3, "a", site 4, .use, []⟩, ⟨4, "main", site 5, .sync, []⟩, ⟨5, "main", site 6, .use, []⟩,
      ⟨6, "a", site 7, .consume, []⟩]
    ∃ b ∈ c.table, b.history = history ∧ b.life.shared = false ∧
      (racesOf b).map (·.span) = [site 3, site 7] ∧
      ∃ pairs : List (AccessRecord × AccessRecord), pairs.length = 2 ∧
        (∀ p ∈ pairs, Leads history p) ∧ (pairs.map (keyOf history)).Nodup ∧
        keyOf history (⟨1, "main", site 2, .use, []⟩, ⟨3, "a", site 4, .use, []⟩) ∈
          pairs.map (keyOf history) := by
  intro site c history
  obtain ⟨b, mem, same, unshared, spans⟩ : ∃ b ∈ c.table, b.history = history ∧
      b.life.shared = false ∧ (racesOf b).map (·.span) = [site 3, site 7] := by
    decide +kernel
  obtain ⟨pairs, found, distinct, leads, kept⟩ := racesOf_windows false _ mem unshared
  have length := congrArg List.length spans
  rw [List.length_map, found.length_eq] at length
  rw [same] at distinct leads kept
  exact ⟨b, mem, same, unshared, spans, pairs, length, leads, distinct, kept _ _ (by decide)⟩

end ResourceSafety.Capability
