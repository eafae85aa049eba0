import ResourceSafety.Proofs.Ownership.WellFormed

/-!
# What requests leave alone

A request to a tracker that is not accepted leaves everything as it was.  One that is accepted
and is about a name changes a single binding: the one of the innermost scope that has the name
(`Tracker.Amends`).  Bindings that it shadows, and all others, keep their records and histories.
Both rest on what every run leaves in order: no number is given twice, and no scope has a name
twice (`Tracker.Orderly`).

A value that was moved is refused from then on, and nothing is borrowed of it that could be
released.  So its binding stays as it is, until records are put back or joined
(`Chronicle.Stays`), and whatever finds it names the place where it was moved.
-/

namespace ResourceSafety.Ownership

/-! ## The binding that a name means -/

/-- What is searched in all scopes is found in the innermost scope that has it. -/
theorem exists_scope_of_find? {scopes : List Scope} {hit : Binding → Bool} {b : Binding}
    (found : scopes.flatten.find? hit = some b) :
    ∃ inner front back outer, scopes = inner ++ (front ++ b :: back) :: outer ∧
      (∀ scope ∈ inner, ∀ x ∈ scope, hit x = false) ∧ ∀ x ∈ front, hit x = false := by
  induction scopes with
  | nil => cases found
  | cons scope rest ih =>
    rw [List.flatten_cons, List.find?_append] at found
    cases here : scope.find? hit with
    | some x =>
      rw [here, Option.some_or, Option.some.injEq] at found
      subst found
      obtain ⟨-, front, back, rfl, before⟩ := List.find?_eq_some_iff_append.mp here
      exact ⟨[], front, back, rest, rfl, by simp, by simpa using before⟩
    | none =>
      rw [here, Option.none_or] at found
      obtain ⟨inner, front, back, outer, rfl, missed, before⟩ := ih found
      refine ⟨scope :: inner, front, back, outer, rfl, ?_, before⟩
      exact List.forall_mem_cons.mpr ⟨by simpa using here, missed⟩

namespace Tracker

variable {t t' : Tracker} {name : String} {b b' : Binding}

/-- The trackers differ in one binding: that of the innermost scope that has the name. -/
def Amends (t t' : Tracker) (name : String) (b b' : Binding) : Prop :=
  ∃ inner front back outer, t.scopes = inner ++ (front ++ b :: back) :: outer ∧
    t'.scopes = inner ++ (front ++ b' :: back) :: outer ∧ t'.next = t.next ∧ b.name = name ∧
    (∀ scope ∈ inner, ∀ x ∈ scope, x.name ≠ name) ∧ ∀ x ∈ front ++ back, x.name ≠ name

/-- No number is given twice, and no scope has a name twice. -/
structure Orderly (t : Tracker) : Prop where
  numbered : t.Numbered
  names : ∀ scope ∈ t.scopes, (scope.map (·.name)).Nodup

theorem map_names_scopes (t : Tracker) :
    t.scopes.map (·.map (·.name)) = t.cells.outline.map (·.map Prod.snd) := by
  simp [cells, Cells.outline, Binding.cell, Function.comp_def]

/-- Changes of records, which leave the outline as it is, leave the order as it is. -/
theorem Orderly.of_outline (h : t.Orderly) (same : t'.cells.outline = t.cells.outline)
    (next : t'.next = t.next) : t'.Orderly := by
  have rows : t'.scopes.map (·.map (·.name)) = t.scopes.map (·.map (·.name)) := by
    rw [map_names_scopes, same, ← map_names_scopes]
  refine ⟨h.numbered.of_outline same next, fun scope mem => ?_⟩
  obtain ⟨old, known, names⟩ := List.mem_map.mp (rows ▸ List.mem_map_of_mem mem)
  exact names ▸ h.names old known

/-- Where no number is given twice, one binding is replaced and no other. -/
theorem scopes_put (numbered : t.Numbered) {inner outer : List Scope} {front back : Scope}
    (scopes : t.scopes = inner ++ (front ++ b :: back) :: outer) (same : b'.id = b.id) :
    (t.put b').scopes = inner ++ (front ++ b' :: back) :: outer := by
  have distinct := numbered.distinct
  have row : t.bindings = (inner.flatten ++ front) ++ b :: (back ++ outer.flatten) := by
    simp [bindings, scopes]
  rw [ids_cells, row, List.map_append, List.map_cons, List.nodup_middle, List.nodup_cons,
    ← List.map_append] at distinct
  have others : ∀ x ∈ (inner.flatten ++ front) ++ (back ++ outer.flatten), x.id ≠ b'.id :=
    fun x mem here => distinct.1 (same ▸ here ▸ List.mem_map_of_mem mem)
  simp only [List.mem_append, List.mem_flatten, or_imp, forall_and, forall_exists_index,
    and_imp] at others
  obtain ⟨⟨inside, before⟩, after, outside⟩ := others
  let f (x : Binding) : Binding := if x.id = b'.id then b' else x
  have kept (scope : Scope) (other : ∀ x ∈ scope, x.id ≠ b'.id) : scope.map f = scope :=
    (List.map_congr_left fun x mem => if_neg (other x mem)).trans (List.map_id scope)
  have rows (rest : List Scope) (other : ∀ x, ∀ scope ∈ rest, x ∈ scope → x.id ≠ b'.id) :
      rest.map (·.map f) = rest :=
    (List.map_congr_left fun scope mem => kept scope fun x => other x scope mem).trans
      (List.map_id rest)
  have whole : (t.put b').scopes = t.scopes.map (·.map f) := rfl
  have here : f b = b' := if_pos same.symm
  rw [whole, scopes, List.map_append, List.map_cons, List.map_append, List.map_cons,
    rows inner inside, rows outer outside, kept front before, kept back after, here]

/-- The binding that a name means gets a new record and one more event. -/
theorem Orderly.amends_put (h : t.Orderly) (found : t.find? name = some b) (r : Record)
    (kind : EventKind) (site : Span) :
    t.Amends (t.put (b.advance r kind site)) name b (b.advance r kind site) := by
  have named : b.name = name := by simpa using List.find?_some found
  obtain ⟨inner, front, back, outer, scopes, missed, before⟩ := exists_scope_of_find? found
  have distinct := h.names (front ++ b :: back) (by simp [scopes])
  rw [List.map_append, List.map_cons, List.nodup_middle, List.nodup_cons, ← List.map_append]
    at distinct
  refine ⟨inner, front, back, outer, scopes, scopes_put h.numbered scopes rfl, rfl, named,
    by simpa using missed, fun x mem same => distinct.1 ?_⟩
  rw [named, ← same]
  exact List.mem_map_of_mem mem

/-! ### Order is kept -/

theorem orderly_empty : empty.Orderly := ⟨numbered_empty, by simp [empty, scopes]⟩

namespace Orderly

theorem enter (h : t.Orderly) : t.enter.Orderly :=
  ⟨numbered_enter h.numbered, List.forall_mem_cons.mpr ⟨List.nodup_nil, h.names⟩⟩

theorem exit (h : t.Orderly) (ht : t.exit = .ok t') : t'.Orderly := by
  refine ⟨numbered_exit h.numbered ht, fun scope mem => h.names scope ?_⟩
  rw [(exit_cases ht).1] at mem
  exact List.mem_cons_of_mem _ mem

/-- A name is defined only in a scope that does not have it. -/
theorem define (h : t.Orderly) {site : Span} (ht : t.define name site = .ok t') : t'.Orderly := by
  refine ⟨numbered_define h.numbered ht, ?_⟩
  obtain ⟨new, -, scopes⟩ := define_cases ht
  have names := List.forall_mem_cons.mp h.names
  have apart : name ∉ t.inner.map (·.name) := by simpa using new
  rw [scopes]
  refine List.forall_mem_cons.mpr ⟨?_, names.2⟩
  rw [List.map_append]
  exact List.nodup_append_comm.mp (List.nodup_cons.mpr ⟨apart, names.1⟩)

theorem access (h : t.Orderly) {a : Access} {site : Span} {v : Option Violation}
    (ht : t.access a name site = .ok (v, t')) : t'.Orderly := by
  obtain ⟨outline, next⟩ := outline_access h.numbered ht
  exact h.of_outline outline next

theorem release (h : t.Orderly) {site : Span} (ht : t.release name site = .ok t') :
    t'.Orderly := by
  obtain ⟨outline, next⟩ := outline_release h.numbered ht
  exact h.of_outline outline next

theorem restore (h : t.Orderly) (s : Snapshot) : (t.restore s).Orderly :=
  h.of_outline (outline_restore t s) rfl

theorem merge (h : t.Orderly) (site : Span) (arms : List Snapshot) :
    (t.merge site arms).Orderly :=
  h.of_outline (outline_merge t site arms).1 (outline_merge t site arms).2

end Orderly

end Tracker

/-! ## Moved values -/

/-- A moved value is refused, and the refusal names the place where it was moved. -/
theorem Record.refusal?_moved {r : Record} (moved : r.state = .moved) (name : String)
    (site : Span) (a : Access) : ∃ v, r.refusal? name site a = some v ∧
      v.conflict = if r.movedAt.isValid then some r.movedAt else none := by
  cases a <;> simp [refusal?, moved, State.isUsable, Violation.against]

namespace Tracker

/-- An access to a binding that forbids it is reported, and changes nothing. -/
theorem access_refused {t : Tracker} {b : Binding} {name : String} {site : Span} {a : Access}
    {v : Violation} (found : t.find? name = some b)
    (refused : b.record.refusal? name site a = some v) :
    t.access a name site = .ok (some v, t) := by
  simp [access, lookup, found, bind, Except.bind, refused, pure, Except.pure]

end Tracker

/-- Records are put back or joined. -/
def Operation.resets : Operation → Bool
  | .restore _ | .merge _ _ => true
  | _ => false

namespace Chronicle

variable {k : Chronicle} {b : Binding}

/-- An operation with a finding leaves the tracker as it is. -/
theorem tracker_of_finding {o : Operation} {v : Violation} {t : Tracker}
    (answered : k.answer o = .ok (some v, t)) : t = k.tracker := by
  cases o with
  | access a name site =>
    obtain ⟨b, -, -, rfl⟩ := Tracker.access_cases answered
    rfl
  | enter | snapshot | restore | merge => cases answered
  | exit | define | release =>
    obtain ⟨t, -, same⟩ := exists_of_map_ok answered
    cases same

/-- Every operation keeps the tracker in order. -/
theorem orderly_yields (h : k.tracker.Orderly) {o : Operation} {k' : Chronicle}
    (yields : k.Yields o k') : k'.tracker.Orderly := by
  cases yields with
  | refused | snapshot => exact h
  | enter => exact h.enter
  | exit ht => exact h.exit ht
  | define ht => exact h.define ht
  | access answered => exact h.access answered
  | release ht => exact h.release ht
  | restore index => exact h.restore _
  | merge site arms => exact h.merge site _

theorem orderly_run (os : List Operation) : (run os).tracker.Orderly :=
  List.foldlRecOn (motive := fun k : Chronicle => k.tracker.Orderly) os Chronicle.step
    Tracker.orderly_empty fun k h o _ => orderly_yields h (k.yields_step o)

/-- The binding is moved, and as long as it is there, it is as it was. -/
structure Stays (b : Binding) (k : Chronicle) : Prop where
  moved : b.record.state = .moved
  known : b.id < k.tracker.next
  same : ∀ x ∈ k.tracker.bindings, x.id = b.id → x = b

/-- What is done with another binding leaves the moved one as it was. -/
theorem Stays.put (h : k.Stays b) {name : String} {x : Binding}
    (found : k.tracker.find? name = some x) (there : x.record.state ≠ .moved) {r : Record}
    {kind : EventKind} {site : Span} {snapshots : List Snapshot} {deeds : List (Nat × Event)} :
    Stays b ⟨k.tracker.put (x.advance r kind site), snapshots, deeds⟩ := by
  refine ⟨h.moved, h.known, fun y mem same => ?_⟩
  rw [Tracker.put, Tracker.bindings_mapBindings] at mem
  obtain ⟨old, inside, rfl⟩ := List.mem_map.mp mem
  by_cases here : old.id = (x.advance r kind site).id
  · -- the binding that is changed is not the moved one
    rw [if_pos here] at same
    have is := h.same x (List.mem_of_find?_eq_some found) same
    exact absurd (is ▸ h.moved) there
  · rw [if_neg here] at same ⊢
    exact h.same old inside same

theorem Stays.yields (h : k.Stays b) (kept : k.Holds Record.Kept) {o : Operation} {k' : Chronicle}
    (yields : k.Yields o k') (resets : o.resets = false) : k'.Stays b := by
  cases yields with
  | refused => exact h
  | enter | snapshot => exact ⟨h.moved, h.known, h.same⟩
  | exit ht =>
    have next := (Tracker.exit_cases ht).2
    exact ⟨h.moved, h.known.trans_eq next.symm,
      fun x mem => h.same x (Tracker.mem_bindings_of_exit ht mem)⟩
  | define ht =>
    have next := (Tracker.define_cases ht).2.1
    refine ⟨h.moved, h.known.trans (by rw [next]; exact Nat.lt_succ_self _), fun x mem same => ?_⟩
    obtain old | rfl := Tracker.mem_bindings_of_define ht mem
    · exact h.same x old same
    · exact absurd same h.known.ne'
  | @access a name site v t answered =>
    obtain ⟨x, found, answer, rfl⟩ := Tracker.access_cases answered
    cases v with
    | some w => exact ⟨h.moved, h.known, h.same⟩
    | none =>
      refine h.put found fun moved => ?_
      obtain ⟨w, refused, -⟩ := Record.refusal?_moved moved name site a
      cases answer.trans refused
  | release ht =>
    obtain ⟨x, r, found, ended, rfl⟩ := Tracker.release_cases ht
    refine h.put found fun moved => ?_
    have usable := (kept.bindings x (List.mem_of_find?_eq_some found)).isUsable_of_release ended
    rw [moved] at usable
    cases usable
  | restore | merge => cases resets

/-- A moved binding stays as it is until records are put back or joined. -/
theorem stays_run (os : List Operation) (mem : b ∈ (run os).tracker.bindings)
    (moved : b.record.state = .moved) {more : List Operation}
    (resets : ∀ o ∈ more, o.resets = false) : (run (os ++ more)).Stays b := by
  have orderly := (orderly_run os).numbered
  have start : (run os).Stays b := by
    have distinct := orderly.distinct
    rw [Tracker.ids_cells] at distinct
    refine ⟨moved, orderly.below _ ?_, fun x mx => List.inj_on_of_nodup_map distinct mx mem⟩
    rw [Tracker.ids_cells]
    exact List.mem_map_of_mem mem
  have kept := holds_run os Record.stable_kept fun _ _ _ => Record.joinable_kept
  rw [run, List.foldl_append, ← run]
  exact (List.foldlRecOn (motive := fun k => k.Holds Record.Kept ∧ k.Stays b) more Chronicle.step
    ⟨kept, start⟩ fun k h o mo =>
      ⟨h.1.yields Record.stable_kept (k.yields_step o) fun _ => Record.joinable_kept,
        h.2.yields h.1 (k.yields_step o) (resets o mo)⟩).2

/-- Whatever was done with a tracker before:

* an operation that is not accepted leaves it as it is;
* an access that is accepted, and a borrow that ends, change the binding that the name means in
  the innermost scope that has it, and no other;
* a moved value is refused, with the place where it was moved, until records are put back or
  joined. -/
theorem frame_run (os : List Operation) :
    (∀ o, (∀ t, (run os).answer o ≠ .ok (none, t)) →
      ((run os).step o).tracker = (run os).tracker) ∧
    (∀ a name site t, (run os).tracker.access a name site = .ok (none, t) →
      ∃ b, (run os).tracker.Amends t name b
        (b.advance (b.record.after site a) (.ofAccess a) site)) ∧
    (∀ name site t, (run os).tracker.release name site = .ok t →
      ∃ (b : Binding) (r : Record), b.record.release? = some r ∧
        (run os).tracker.Amends t name b (b.advance r .release site)) ∧
    ∀ b ∈ (run os).tracker.bindings, b.record.state = .moved →
      ∀ more, (∀ o ∈ more, o.resets = false) →
        ∀ a name site x, (run (os ++ more)).tracker.find? name = some x → x.id = b.id →
          ∃ v, (run (os ++ more)).tracker.access a name site =
              .ok (some v, (run (os ++ more)).tracker) ∧
            (b.record.movedAt.isValid = true → v.conflict = some b.record.movedAt) := by
  refine ⟨fun o refused => ?_, fun a name site t ht => ?_, fun name site t ht => ?_, ?_⟩
  · simp only [Chronicle.step]
    split
    · rfl
    next v t answered =>
      cases v with
      | none => exact absurd answered (refused t)
      | some v => exact tracker_of_finding answered
  · obtain ⟨b, found, -, rfl⟩ := Tracker.access_cases ht
    exact ⟨b, (orderly_run os).amends_put found _ _ _⟩
  · obtain ⟨b, r, found, ended, rfl⟩ := Tracker.release_cases ht
    exact ⟨b, r, ended, (orderly_run os).amends_put found _ _ _⟩
  · intro b mem moved more resets a name site x found same
    obtain rfl := (stays_run os mem moved resets).same x (List.mem_of_find?_eq_some found) same
    obtain ⟨v, refused, conflict⟩ := Record.refusal?_moved moved name site a
    exact ⟨v, Tracker.access_refused found refused, fun valid => by rw [conflict, if_pos valid]⟩

/-- The inner `x` is moved, and shadows one that is not.  A second move is refused.  A borrow of
`y` ends, and nothing else changes.  The move is blamed even after a third `x` came and went. -/
theorem frame_run_shadowed :
    let site (line : Int64) := Span.point "a" line 1
    let os : List Operation := [.define "x" (site 1), .define "y" (site 2),
      .access (.borrow false) "y" (site 3), .enter, .define "x" (site 4), .access .move "x" (site 5)]
    let more : List Operation := [.enter, .define "x" (site 9), .access .read "x" (site 10), .exit,
      .release "y" (site 11)]
    ((run os).step (.access .move "x" (site 6))).tracker = (run os).tracker ∧
    (∃ t b b', (run os).tracker.access .read "y" (site 7) = .ok (none, t) ∧
      (run os).tracker.Amends t "y" b b') ∧
    (∃ t b b', (run os).tracker.release "y" (site 8) = .ok t ∧
      (run os).tracker.Amends t "y" b b') ∧
    ∃ v t, (run (os ++ more)).tracker.access .read "x" (site 12) = .ok (some v, t) ∧
      v.conflict = some (site 5) := by
  intro site os more
  obtain ⟨unchanged, accessed, released, moved⟩ := frame_run os
  refine ⟨unchanged _ fun t accepted => ?_, ?_, ?_, ?_⟩
  · have refused : ((run os).answer (.access .move "x" (site 6))).map (·.1.isSome) = .ok true := by
      decide +kernel
    rw [accepted] at refused
    cases refused
  · obtain ⟨t, ht⟩ : ∃ t, (run os).tracker.access .read "y" (site 7) = .ok (none, t) :=
      ⟨_, rfl⟩
    obtain ⟨b, amends⟩ := accessed _ _ _ t ht
    exact ⟨t, b, _, ht, amends⟩
  · obtain ⟨t, ht⟩ : ∃ t, (run os).tracker.release "y" (site 8) = .ok t :=
      ⟨_, rfl⟩
    obtain ⟨b, r, -, amends⟩ := released _ _ t ht
    exact ⟨t, b, _, ht, amends⟩
  · obtain ⟨b, mem, gone, at5, x, found, same⟩ : ∃ b ∈ (run os).tracker.bindings,
        b.record.state = .moved ∧ b.record.movedAt = site 5 ∧
        ∃ x ∈ (run (os ++ more)).tracker.find? "x", x.id = b.id := by
      decide +kernel
    obtain ⟨v, refused, blames⟩ := moved b mem gone more (by decide) .read "x" (site 12) x found same
    rw [at5] at blames
    exact ⟨v, _, refused, blames (by decide)⟩

end Chronicle

end ResourceSafety.Ownership
