import ResourceSafety.Proofs.Capability.Charting
import ResourceSafety.Proofs.Capability.Scan

/-!
# The latest record

A strict context asks at every access whether it completes a race (`latestRace?`).  Other contexts
scan whole histories later (`Context.racesOf`).  The two agree record by record.

* A record that takes no part in races leaves the scan as it is.  For a marker this needs that it
  is made after all records that are there, as it is in every walk.
* An access only adds races behind those that were there.  All of them are its own, and the first
  of them is what the strict context reports.
-/

namespace ResourceSafety.Capability

open Context (racesOf)

/-- The records of a walk are not made after its end. -/
theorem Walk.recent_conduct (strict : Bool) (is : List Instruction) {b : Binding}
    (mem : b ∈ (Walk.conduct strict is).context.table) {x : AccessRecord} (hx : x ∈ b.history) :
    x.seq ≤ (Walk.conduct strict is).context.seq := by
  obtain ⟨around, charted⟩ := Walk.charted_conduct strict is
  exact charted.recent x (Walk.record_mem_events (List.mem_flatMap.mpr ⟨b, mem, hx⟩))

theorem racesOf_unshared {b : Binding} (unshared : b.life.shared = false) :
    racesOf b = races b.name b.history := by
  rw [racesOf, unshared]
  rfl

/-- Each race that an access adds is its own. -/
theorem own_of_mem_addedPairs {history : List AccessRecord} {r : AccessRecord}
    (access : r.kind.conflicts = true) {p : WindowedAccess × WindowedAccess}
    (mem : p ∈ addedPairs history [r]) : p.2.record = r := by
  rw [addedPairs_of_conflicts access] at mem
  obtain ⟨pair, -⟩ := List.mem_filter.mp ((firstOfKey_sublist _ _).subset mem)
  obtain ⟨a, -, rfl⟩ := List.mem_map.mp pair
  rfl

/-- One more record of an unshared capability, made after those that a walk has made.  If it is
no access, the races stay the same.  If it is one, races are added behind them only: each is of
this access and its thread, and the first is what a strict context reports at once. -/
theorem racesOf_concat (strict : Bool) (is : List Instruction) {b : Binding}
    (mem : b ∈ (Walk.conduct strict is).context.table) (unshared : b.life.shared = false)
    {r : AccessRecord} (latest : (Walk.conduct strict is).context.seq < r.seq) :
    let longer : Binding := { b with history := b.history ++ [r] }
    (r.kind.conflicts = false → racesOf longer = racesOf b) ∧
      (r.kind.conflicts = true → ∃ more, racesOf longer = racesOf b ++ more ∧
        (∀ v ∈ more, v.span = r.span ∧ v.threads.2 = r.thread) ∧
        latestRace? longer.name longer.history = more.head?) := by
  intro longer
  have order : ∀ x ∈ b.history, ∀ m ∈ markers [r], x.seq < m.seq := by
    intro x hx m hm
    obtain rfl := List.mem_singleton.mp (List.mem_of_mem_filter hm)
    exact Nat.lt_of_le_of_lt (Walk.recent_conduct strict is mem hx) latest
  have whole : racesOf longer = races b.name (b.history ++ [r]) := racesOf_unshared unshared
  have scan := races_append b.name order
  rw [← whole, ← racesOf_unshared unshared] at scan
  refine ⟨fun quiet => ?_, fun access => ⟨_, scan, fun v hv => ?_, ?_⟩⟩
  · rw [scan, addedPairs_of_not_conflicts quiet, List.map_nil, List.append_nil]
  · obtain ⟨p, hp, rfl⟩ := List.mem_map.mp hv
    rw [← own_of_mem_addedPairs access hp]
    exact ⟨rfl, rfl⟩
  · exact latestRace?_concat b.name access

/-- A third thread comes to a capability that two threads used already.  Its access adds a race
with each of them, and the race with the first is reported at once. -/
theorem racesOf_concat_thirdThread :
    let at? (line : Int64) := Span.point "" line 1
    let c := (Walk.conduct true [
      .request (.define "x" .socket (at? 1)), .request (.use "x" (at? 2)),
      .request (.enterThread "a"), .request (.use "x" (at? 3)), .request .exitThread,
      .request (.enterThread "b")]).context
    let r := c.recordNow .consume (at? 4)
    ∃ b ∈ c.table, b.life.shared = false ∧ c.seq < r.seq ∧ (racesOf b).length = 1 ∧
      ∃ more, racesOf { b with history := b.history ++ [r] } = racesOf b ++ more ∧
        more.map (·.threads) = [("main", "b"), ("a", "b")] ∧ (∀ v ∈ more, v.span = at? 4) ∧
        latestRace? b.name (b.history ++ [r]) = more.head? := by
  intro at? c r
  obtain ⟨b, mem, unshared, length, races⟩ : ∃ b ∈ c.table, b.life.shared = false ∧
      (racesOf b).length = 1 ∧
      ((racesOf { b with history := b.history ++ [r] }).map (·.threads)).drop 1 =
        [("main", "b"), ("a", "b")] := by
    decide +kernel
  have latest : c.seq < r.seq := Nat.lt_succ_self _
  obtain ⟨more, scan, own, first⟩ := (racesOf_concat true _ mem unshared latest).2 rfl
  refine ⟨b, mem, unshared, latest, length, more, scan, ?_, fun v hv => (own v hv).1, first⟩
  rw [scan, List.map_append, List.drop_left' (by rw [List.length_map, length])] at races
  exact races

end ResourceSafety.Capability
