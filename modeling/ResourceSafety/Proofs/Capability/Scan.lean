import ResourceSafety.Capability.Race
import Mathlib.Data.List.Basic

/-!
# What the scan for races finds

`races` goes through all pairs of accesses of a history and keeps the first
conflicting pair of each key.  Here the scan is read as a set.

* The pairs that it looks at are the two-element sublists of the accesses
  (`mem_pairsAfter`), and the accesses are the records of the history that take
  part in races (`map_record_accesses`).
* Every key of a pair that conflicts is the key of a pair that is kept
  (`exists_mem_firstOfKey`).
* Equal keys name the same two threads (`RaceKey.sameThreads_of_eq`).

So two records of different threads that conflict are reported, if not by
themselves then by another pair of the same threads (`exists_mem_races`).  Conversely every
race is one of two records that conflict (`exists_conflict_of_mem_races`).

Read as a list, the scan goes on where it stopped.  Records that are added to a history add
their races behind those there are (`races_append`), and the race that the latest record is
said to add is the first of them (`latestRace?_concat`).
-/

namespace ResourceSafety.Capability

/-! ## Pairs -/

theorem mem_pairsAfter {earlier l : List WindowedAccess} {a b : WindowedAccess} :
    (a, b) ∈ pairsAfter earlier l ↔ (a ∈ earlier ∧ b ∈ l) ∨ [a, b].Sublist l := by
  induction l generalizing earlier with
  | nil => simp [pairsAfter]
  | cons c rest ih =>
      have head : (a, b) ∈ pairsWith earlier c ↔ a ∈ earlier ∧ b = c := by
        simp [pairsWith, eq_comm]
      rw [pairsAfter, List.mem_append, head, ih, List.cons_sublist_cons', List.singleton_sublist,
        List.mem_append, List.mem_singleton, List.mem_cons]
      tauto

/-- The accesses are the records that take part in races, in order. -/
theorem map_record_accessesAfter (before history : List AccessRecord) :
    (accessesAfter before history).map (·.record) = history.filter (·.kind.conflicts) := by
  induction history generalizing before with
  | nil => rfl
  | cons r rest ih =>
      rw [accessesAfter]
      by_cases h : r.kind.conflicts = true
      · simp [h, ih]
      · simp [h, ih]

theorem map_record_accesses (history : List AccessRecord) :
    (accesses history).map (·.record) = history.filter (·.kind.conflicts) :=
  map_record_accessesAfter [] history

theorem accessesAfter_append (before history later : List AccessRecord) :
    accessesAfter before (history ++ later) =
      accessesAfter before history ++ accessesAfter (before ++ history) later := by
  induction history generalizing before with
  | nil => simp [accessesAfter]
  | cons r rest ih =>
      simp only [List.cons_append, accessesAfter, ih, List.append_assoc, List.nil_append]
      split <;> rfl

theorem pairsAfter_append (earlier l m : List WindowedAccess) :
    pairsAfter earlier (l ++ m) = pairsAfter earlier l ++ pairsAfter (earlier ++ l) m := by
  induction l generalizing earlier with
  | nil => simp [pairsAfter]
  | cons c rest ih => simp [pairsAfter, ih]

/-- Two records of a history that take part in races are a pair that the scan
looks at. -/
theorem exists_pair_of_sublist {history : List AccessRecord} {x y : AccessRecord}
    (h : [x, y].Sublist history) (hx : x.kind.conflicts = true) (hy : y.kind.conflicts = true) :
    ∃ a b, a.record = x ∧ b.record = y ∧ (a, b) ∈ pairsAfter [] (accesses history) := by
  have kept : [x, y].Sublist ((accesses history).map (·.record)) := by
    rw [map_record_accesses]
    simpa [hx, hy] using h.filter (·.kind.conflicts)
  obtain ⟨l, hl, heq⟩ := List.sublist_map_iff.mp kept
  match l, heq with
  | [a, b], heq =>
      obtain ⟨hxa, hyb⟩ : x = a.record ∧ y = b.record := by simpa using heq
      exact ⟨a, b, hxa.symm, hyb.symm, mem_pairsAfter.mpr (Or.inr hl)⟩

/-! ## Keys -/

/-- Both pairs are made of the same two threads. -/
def SameThreads (p q : ThreadTag × ThreadTag) : Prop := p = q ∨ p = (q.2, q.1)

theorem RaceKey.sameThreads_of_eq {a b a' b' : WindowedAccess}
    (h : RaceKey.of a' b' = RaceKey.of a b) :
    SameThreads (a'.record.thread, b'.record.thread) (a.record.thread, b.record.thread) := by
  unfold RaceKey.of at h
  unfold SameThreads
  dsimp only at h
  split at h <;> split at h <;> simp only [RaceKey.mk.injEq] at h <;> simp [h.1, h.2.1]

theorem exists_mem_firstOfKey {seen : List RaceKey} {a b : WindowedAccess}
    {pairs : List (WindowedAccess × WindowedAccess)} (h : (a, b) ∈ pairs)
    (new : RaceKey.of a b ∉ seen) :
    ∃ a' b', (a', b') ∈ firstOfKey seen pairs ∧ RaceKey.of a' b' = RaceKey.of a b := by
  induction pairs generalizing seen with
  | nil => cases h
  | cons p rest ih =>
      obtain ⟨c, d⟩ := p
      rw [firstOfKey]
      by_cases known : seen.contains (RaceKey.of c d) = true
      · simp only [known, if_true]
        refine ih ?_ new
        rcases List.mem_cons.mp h with heq | hrest
        · cases heq
          exact absurd (List.contains_iff_mem.mp known) new
        · exact hrest
      · simp only [known, Bool.false_eq_true, if_false]
        by_cases same : RaceKey.of c d = RaceKey.of a b
        · exact ⟨c, d, List.mem_cons_self, same⟩
        · rcases List.mem_cons.mp h with heq | hrest
          · cases heq
            exact absurd rfl same
          · have new' : RaceKey.of a b ∉ RaceKey.of c d :: seen := by
              simp [Ne.symm same, new]
            obtain ⟨a', b', hmem, hkey⟩ := ih hrest new'
            exact ⟨a', b', List.mem_cons_of_mem _ hmem, hkey⟩

theorem firstOfKey_sublist (seen : List RaceKey) (pairs : List (WindowedAccess × WindowedAccess)) :
    (firstOfKey seen pairs).Sublist pairs := by
  induction pairs generalizing seen with
  | nil => exact .slnil
  | cons p rest ih =>
      obtain ⟨a, b⟩ := p
      rw [firstOfKey]
      split
      · exact (ih seen).cons _
      · exact (ih _).cons_cons _

/-- Of the keys that were seen, only which they are matters. -/
theorem firstOfKey_congr {seen seen' : List RaceKey} (same : ∀ k, k ∈ seen ↔ k ∈ seen')
    (l : List (WindowedAccess × WindowedAccess)) : firstOfKey seen l = firstOfKey seen' l := by
  induction l generalizing seen seen' with
  | nil => rfl
  | cons p rest ih =>
      obtain ⟨a, b⟩ := p
      have known : seen.contains (RaceKey.of a b) = seen'.contains (RaceKey.of a b) := by
        rw [Bool.eq_iff_iff, List.contains_iff_mem, List.contains_iff_mem, same]
      have more : ∀ k, k ∈ RaceKey.of a b :: seen ↔ k ∈ RaceKey.of a b :: seen' := by
        simp [same]
      simp only [firstOfKey, known, ih same, ih more]

/-- The keys of pairs. -/
def keysOf (pairs : List (WindowedAccess × WindowedAccess)) : List RaceKey :=
  pairs.map fun p => RaceKey.of p.1 p.2

/-- Later pairs are looked at with the keys of all earlier ones seen. -/
theorem firstOfKey_append (seen : List RaceKey) (l m : List (WindowedAccess × WindowedAccess)) :
    firstOfKey seen (l ++ m) = firstOfKey seen l ++ firstOfKey (keysOf l ++ seen) m := by
  induction l generalizing seen with
  | nil => rfl
  | cons p rest ih =>
      obtain ⟨a, b⟩ := p
      simp only [List.cons_append, firstOfKey, ih]
      split
      next known =>
        have mem : RaceKey.of a b ∈ seen := List.contains_iff_mem.mp known
        have same : ∀ k, k ∈ keysOf rest ++ seen ↔ k ∈ keysOf ((a, b) :: rest) ++ seen := by
          intro k
          simp only [keysOf, List.map_cons, List.mem_append, List.mem_cons]
          exact ⟨fun h => h.imp_left Or.inr, fun h => by
            obtain (rfl | old) | old := h
            · exact .inr mem
            · exact .inl old
            · exact .inr old⟩
        rw [firstOfKey_congr same]
      next =>
        have same : ∀ k, k ∈ keysOf rest ++ RaceKey.of a b :: seen ↔
            k ∈ keysOf ((a, b) :: rest) ++ seen := fun k =>
          List.perm_middle.mem_iff
        rw [firstOfKey_congr same]
        rfl

/-- The first pair that is kept is the first with a new key. -/
theorem head?_firstOfKey (seen : List RaceKey) (l : List (WindowedAccess × WindowedAccess)) :
    (firstOfKey seen l).head? = l.find? fun p => !seen.contains (RaceKey.of p.1 p.2) := by
  induction l with
  | nil => rfl
  | cons p rest ih =>
      obtain ⟨a, b⟩ := p
      rw [firstOfKey, List.find?_cons]
      cases seen.contains (RaceKey.of a b) with
      | true => exact ih
      | false => rfl

/-! ## Races -/

/-- A race is about two records of the history that take part in races and conflict. -/
theorem exists_conflict_of_mem_races {name : String} {history : List AccessRecord} {v : Violation}
    (hv : v ∈ races name history) :
    ∃ a b, v = raceViolation name a b ∧
      [a.record, b.record].Sublist (history.filter (·.kind.conflicts)) ∧
      conflict (markers history) a b = true := by
  obtain ⟨⟨a, b⟩, hkept, rfl⟩ := List.mem_map.mp hv
  obtain ⟨hpair, hconflict⟩ := List.mem_filter.mp ((firstOfKey_sublist _ _).subset hkept)
  have order : [a, b].Sublist (accesses history) := by simpa using mem_pairsAfter.mp hpair
  refine ⟨a, b, rfl, ?_, hconflict⟩
  rw [← map_record_accesses]
  exact order.map (·.record)

/-- The pairs of a history that conflict. -/
def conflictsOf (history : List AccessRecord) : List (WindowedAccess × WindowedAccess) :=
  conflicting (markers history) (pairsAfter [] (accesses history))

/-- A marker that is made later separates no two accesses. -/
theorem conflicting_markers_append {history later : List AccessRecord}
    (order : ∀ r ∈ history, ∀ m ∈ markers later, r.seq < m.seq) :
    conflicting (markers (history ++ later)) (pairsAfter [] (accesses history)) =
      conflictsOf history := by
  have known : ∀ a ∈ accesses history, a.record ∈ history := fun a mem =>
    (List.mem_filter.mp (map_record_accesses history ▸ List.mem_map_of_mem mem)).1
  refine List.filter_congr fun p mem => ?_
  obtain ⟨a, b⟩ := p
  have last : b ∈ accesses history := by
    have sub : [a, b].Sublist (accesses history) := by simpa using mem_pairsAfter.mp mem
    exact sub.subset (by simp)
  have apart : (markers later).any (separates a.record b.record) = false := by
    rw [List.any_eq_false]
    intro m mm
    have := order _ (known b last) m mm
    simp only [separates, Bool.and_eq_true, decide_eq_true_eq, not_and]
    omega
  simp only [conflict, markers, List.filter_append, List.any_append]
  rw [markers] at apart
  rw [apart, Bool.or_false]

/-- The pairs of `later` records with those before them that conflict and have new keys. -/
def addedPairs (history later : List AccessRecord) : List (WindowedAccess × WindowedAccess) :=
  firstOfKey (keysOf (conflictsOf history))
    (conflicting (markers (history ++ later))
      (pairsAfter (accesses history) (accessesAfter history later)))

/-- Records that are made later add races behind those there are. -/
theorem races_append (name : String) {history later : List AccessRecord}
    (order : ∀ r ∈ history, ∀ m ∈ markers later, r.seq < m.seq) :
    races name (history ++ later) =
      races name history ++ (addedPairs history later).map fun (a, b) => raceViolation name a b := by
  have pairs : pairsAfter [] (accesses (history ++ later)) =
      pairsAfter [] (accesses history) ++
        pairsAfter (accesses history) (accessesAfter history later) := by
    rw [accesses, accessesAfter_append, pairsAfter_append]
    rfl
  rw [races, races, pairs, ← List.map_append]
  congr 1
  rw [conflicting, List.filter_append, firstOfKey_append, List.append_nil]
  have same := conflicting_markers_append order
  rw [conflicting] at same
  rw [same]
  rfl

/-- A race stays one when later records are added. -/
theorem mem_races_append {name : String} {history later : List AccessRecord} {v : Violation}
    (order : ∀ r ∈ history, ∀ m ∈ later, r.seq < m.seq) (h : v ∈ races name history) :
    v ∈ races name (history ++ later) := by
  rw [races_append name fun r hr m hm => order r hr m (List.mem_of_mem_filter hm)]
  exact List.mem_append_left _ h

/-! ## The latest record -/

variable {history : List AccessRecord} {r : AccessRecord}

/-- Records that are no accesses add no races. -/
theorem addedPairs_of_not_conflicts (quiet : r.kind.conflicts = false) : addedPairs history [r] = [] := by
  simp [addedPairs, accessesAfter, quiet, pairsAfter, conflicting, firstOfKey]

/-- An access that conflicts is no marker. -/
theorem markers_singleton (access : r.kind.conflicts = true) : markers [r] = [] := by
  cases kind : r.kind <;> simp_all [markers, AccessKind.conflicts]

theorem markers_concat (access : r.kind.conflicts = true) :
    markers (history ++ [r]) = markers history := by
  rw [markers, List.filter_append, ← markers, ← markers, markers_singleton access,
    List.append_nil]

/-- The pairs that an access adds are its own with earlier ones. -/
theorem addedPairs_of_conflicts (access : r.kind.conflicts = true) :
    addedPairs history [r] = firstOfKey (keysOf (conflictsOf history))
      (conflicting (markers history) (pairsWith (accesses history) ⟨r, windowAfter history r⟩)) := by
  simp [addedPairs, accessesAfter, access, pairsAfter, markers_concat access]

/-- The race that the latest access is said to add is the first that it adds. -/
theorem latestRace?_concat (name : String) (access : r.kind.conflicts = true) :
    latestRace? name (history ++ [r]) =
      ((addedPairs history [r]).map fun (a, b) => raceViolation name a b).head? := by
  have accs : accesses (history ++ [r]) = accesses history ++ [⟨r, windowAfter history r⟩] := by
    rw [accesses, accessesAfter_append]
    simp [accesses, accessesAfter, access]
  rw [addedPairs_of_conflicts access, List.head?_map, head?_firstOfKey]
  simp only [latestRace?, List.getLast?_concat, access, accs, markers_concat access,
    List.dropLast_concat]
  rfl

/-- What the latest record adds is one of the races of the history. -/
theorem mem_races_of_latestRace? {name : String} {history : List AccessRecord} {v : Violation}
    (h : latestRace? name history = some v) : v ∈ races name history := by
  obtain rfl | ⟨before, r, rfl⟩ := List.eq_nil_or_concat history
  · cases h
  rw [List.concat_eq_append] at h ⊢
  cases access : r.kind.conflicts with
  | false => simp [latestRace?, access] at h
  | true =>
      rw [latestRace?_concat name access] at h
      rw [races_append name (by simp [markers_singleton access])]
      exact List.mem_append_right _ (List.mem_of_head? h)

/-- Two accesses that conflict are reported, by themselves or by an earlier pair of
the same threads in the same window. -/
theorem exists_mem_races (name : String) {history : List AccessRecord} {x y : AccessRecord}
    (order : [x, y].Sublist history) (hx : x.kind.conflicts = true)
    (hy : y.kind.conflicts = true) (threads : x.thread ≠ y.thread)
    (together : exclusive x.path y.path = false)
    (apart : ∀ m ∈ markers history, separates x y m = false) :
    ∃ v ∈ races name history, v.kind = .concurrentUse ∧ v.binding = name ∧
      SameThreads v.threads (x.thread, y.thread) := by
  obtain ⟨a, b, rfl, rfl, hpair⟩ := exists_pair_of_sublist order hx hy
  have hconflict : conflict (markers history) a b = true := by
    simpa [conflict, threads, together] using apart
  have hmem : (a, b) ∈ conflicting (markers history) (pairsAfter [] (accesses history)) :=
    List.mem_filter.mpr ⟨hpair, hconflict⟩
  obtain ⟨a', b', hkept, hkey⟩ := exists_mem_firstOfKey hmem (List.not_mem_nil)
  exact ⟨raceViolation name a' b', List.mem_map.mpr ⟨(a', b'), hkept, rfl⟩, rfl, rfl,
    RaceKey.sameThreads_of_eq hkey⟩

end ResourceSafety.Capability
