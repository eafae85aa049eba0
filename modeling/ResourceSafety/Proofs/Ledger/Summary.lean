import Mathlib.Algebra.BigOperators.Fin
import Mathlib.Data.List.Indexes
import ResourceSafety.Ledger.Summary
import ResourceSafety.Proofs.Source.Containment

/-!
# Summaries attribute every note once

A declaration is *innermost* for a span when it contains the span and every declaration inside it
that also contains the span contains it in turn.  The search goes through the declarations once and
keeps the best so far.  What it keeps is innermost among the declarations it has seen
(`Decl.innermostOf_better`), because containment is transitive.

So the notes of a ledger fall into groups, one for each declaration and one for the notes that no
declaration contains.  Counts are kept in the order of their keys, which makes the number of a key
the number of its occurrences (`Counts.count_ofKeys`).  Hence the counts of the groups add up to
those of the ledger (`Ledger.summarize_attributes`).
-/

namespace ResourceSafety

/-! ## The innermost declaration -/

namespace Decl

variable {span : Span}

/-- The declaration contains the span, and it lies inside every declaration inside it that also
does. -/
structure InnermostOf (decls : List Decl) (span : Span) (d : Decl) : Prop where
  contains : d.span.contains span = true
  least : ∀ e ∈ decls, e.span.contains span = true → d.span.contains e.span = true →
    e.span.contains d.span = true

/-- What the search has found among the declarations it has seen. -/
def Found (seen : List (Nat × Decl)) (span : Span) : Option (Nat × Decl) → Prop
  | none => ∀ d ∈ seen, d.2.span.contains span = false
  | some best => best ∈ seen ∧ best.2.InnermostOf (seen.map Prod.snd) span

/-- One more declaration is either better than what was found, or leaves it innermost. -/
theorem Found.better {seen : List (Nat × Decl)} {best : Option (Nat × Decl)}
    (found : Found seen span best) (next : Nat × Decl) :
    Found (seen ++ [next]) span (Decl.better span best next) := by
  have last : next ∈ seen ++ [next] := List.mem_append_right _ List.mem_cons_self
  unfold Decl.better
  cases holds : next.2.span.contains span with
  | false =>
    cases best with
    | none => exact List.forall_mem_append.mpr ⟨found, List.forall_mem_singleton.mpr holds⟩
    | some b =>
      refine ⟨List.mem_append_left _ found.1, found.2.contains, ?_⟩
      rw [List.map_append]
      refine List.forall_mem_append.mpr ⟨found.2.least, List.forall_mem_singleton.mpr ?_⟩
      intro within
      rw [holds] at within
      cases within
  | true =>
    cases best with
    | none =>
      refine ⟨last, holds, ?_⟩
      rw [List.map_append]
      refine List.forall_mem_append.mpr ⟨List.forall_mem_map.mpr fun e mem within => ?_, ?_⟩
      · rw [found e mem] at within
        cases within
      · exact List.forall_mem_singleton.mpr fun _ inside => inside
    | some b =>
      obtain ⟨mem, contains, least⟩ := found
      simp only [Bool.not_true, Bool.false_eq_true, if_false]
      cases inside : b.2.span.contains next.2.span with
      | false =>
        refine ⟨List.mem_append_left _ mem, contains, ?_⟩
        rw [List.map_append]
        refine List.forall_mem_append.mpr ⟨least, List.forall_mem_singleton.mpr fun _ nested => ?_⟩
        rw [inside] at nested
        cases nested
      | true =>
        refine ⟨last, holds, ?_⟩
        rw [List.map_append]
        refine List.forall_mem_append.mpr ⟨fun e he within nested => ?_, ?_⟩
        · -- what lies inside the new one lies inside the old one, and so contains both
          have around := least e he within (Span.contains_trans inside nested)
          exact Span.contains_trans around inside
        · exact List.forall_mem_singleton.mpr fun _ nested => nested

theorem found_foldl (decls : List (Nat × Decl)) (span : Span) :
    Found decls span (decls.foldl (Decl.better span) none) := by
  induction decls using List.reverseRecOn with
  | nil => exact List.forall_mem_nil _
  | append_singleton decls next ih =>
    rw [List.foldl_append]
    exact ih.better next

end Decl

theorem map_snd_mapIdx (decls : List Decl) :
    (decls.mapIdx fun i d => (i, d)).map Prod.snd = decls :=
  List.ext_getElem (by simp) (by simp)

/-- The search finds an innermost declaration, unless none contains the span. -/
theorem innermost_spec (decls : List Decl) (span : Span) :
    match innermost decls span with
    | none => ∀ d ∈ decls, d.span.contains span = false
    | some i => ∃ d, decls[i]? = some d ∧ d.InnermostOf decls span := by
  have found := Decl.found_foldl (decls.mapIdx fun i d => (i, d)) span
  unfold innermost
  cases best : (decls.mapIdx fun i d => (i, d)).foldl (Decl.better span) none with
  | none =>
    rw [best] at found
    intro d mem
    rw [← map_snd_mapIdx decls] at mem
    obtain ⟨e, he, rfl⟩ := List.mem_map.mp mem
    exact found e he
  | some b =>
    rw [best] at found
    obtain ⟨mem, least⟩ := found
    obtain ⟨i, below, rfl⟩ := List.mem_mapIdx.mp mem
    rw [map_snd_mapIdx] at least
    exact ⟨decls[i], List.getElem?_eq_getElem below, least⟩

/-- Of declarations inside each other the last one is found, wherever the one around them stands. -/
example : innermost [⟨"first", .point "a.oz" 2 5⟩,
    ⟨"around", ⟨⟨"a.oz", 1, 1, 0⟩, ⟨"a.oz", 9, 1, 0⟩⟩⟩, ⟨"last", .point "a.oz" 2 5⟩]
    (.point "a.oz" 2 5) = some 2 := by
  decide

theorem innermost_eq_none_iff {decls : List Decl} {span : Span} :
    innermost decls span = none ↔ ∀ d ∈ decls, d.span.contains span = false := by
  have spec := innermost_spec decls span
  cases found : innermost decls span with
  | none =>
    rw [found] at spec
    exact iff_of_true rfl spec
  | some i =>
    rw [found] at spec
    obtain ⟨d, at_place, holds⟩ := spec
    refine iff_of_false (Option.some_ne_none i) fun outside => ?_
    have := outside d (List.mem_of_getElem? at_place)
    rw [holds.contains] at this
    cases this

theorem innermostOf_of_innermost {decls : List Decl} {span : Span} {i : Nat}
    (found : innermost decls span = some i) :
    ∃ d, decls[i]? = some d ∧ d.InnermostOf decls span := by
  have spec := innermost_spec decls span
  rw [found] at spec
  exact spec

/-! ## Counts by key -/

namespace Counts

/-- The keys are in order, each once. -/
def Ordered (c : Counts) : Prop := c.Pairwise (·.1 < ·.1)

theorem mem_increment {key : String} {c : Counts} {e : String × Nat}
    (mem : e ∈ c.increment key) : e.1 = key ∨ ∃ old ∈ c, e.1 = old.1 := by
  induction c with
  | nil =>
    rw [increment, List.mem_singleton] at mem
    exact Or.inl (congrArg Prod.fst mem)
  | cons first rest ih =>
    rw [increment] at mem
    split at mem
    next =>
      rcases List.mem_cons.mp mem with rfl | mem
      · exact Or.inr ⟨first, List.mem_cons_self, rfl⟩
      · exact Or.inr ⟨e, List.mem_cons_of_mem first mem, rfl⟩
    next =>
      split at mem
      next =>
        rcases List.mem_cons.mp mem with rfl | mem
        · exact Or.inl rfl
        · exact Or.inr ⟨e, mem, rfl⟩
      next =>
        rcases List.mem_cons.mp mem with rfl | mem
        · exact Or.inr ⟨first, List.mem_cons_self, rfl⟩
        · exact (ih mem).imp_right fun ⟨old, mem, eq⟩ => ⟨old, List.mem_cons_of_mem first mem, eq⟩

theorem Ordered.increment {c : Counts} (ordered : c.Ordered) (key : String) :
    (c.increment key).Ordered := by
  induction c with
  | nil => exact List.pairwise_singleton _ _
  | cons first rest ih =>
    obtain ⟨before, tail⟩ := List.pairwise_cons.mp ordered
    rw [Counts.increment]
    split
    next => exact List.pairwise_cons.mpr ⟨before, tail⟩
    next differ =>
      split
      next less =>
        refine List.pairwise_cons.mpr ⟨List.forall_mem_cons.mpr ⟨less, ?_⟩, ordered⟩
        exact fun e mem => String.lt_trans less (before e mem)
      next notLess =>
        refine List.pairwise_cons.mpr ⟨fun e mem => ?_, ih tail⟩
        have greater : first.1 < key := Std.lt_of_le_of_ne notLess fun eq =>
          differ (beq_iff_eq.mpr eq.symm)
        rcases mem_increment mem with eq | ⟨old, mem, eq⟩
        · exact eq ▸ greater
        · exact eq ▸ before old mem

theorem count_cons (k : String) (n : Nat) (rest : Counts) (key : String) :
    count ((k, n) :: rest) key = if key = k then n else count rest key := by
  unfold count
  rw [List.lookup_cons]
  by_cases same : key = k
  · rw [if_pos same, beq_iff_eq.mpr same]
    rfl
  · rw [if_neg same, beq_eq_false_iff_ne.mpr same]

theorem count_eq_zero {c : Counts} {key : String} (before : ∀ e ∈ c, key < e.1) :
    c.count key = 0 := by
  induction c with
  | nil => rfl
  | cons first rest ih =>
    obtain ⟨less, others⟩ := List.forall_mem_cons.mp before
    rw [count_cons, if_neg (String.ne_of_lt less), ih others]

/-- An increment counts one more of its key, and as many as before of the others. -/
theorem count_increment {c : Counts} (ordered : c.Ordered) (key other : String) :
    (c.increment key).count other = c.count other + if key = other then 1 else 0 := by
  induction c with
  | nil =>
    rw [increment, count_cons]
    by_cases same : key = other
    · rw [if_pos same, if_pos same.symm]
      rfl
    · rw [if_neg same, if_neg (Ne.symm same)]
      rfl
  | cons first rest ih =>
    obtain ⟨before, tail⟩ := List.pairwise_cons.mp ordered
    obtain ⟨k, n⟩ := first
    rw [increment]
    split
    next same =>
      rw [count_cons, count_cons, beq_iff_eq.mp same]
      by_cases here : other = k
      · rw [if_pos here, if_pos here, if_pos here.symm]
      · rw [if_neg here, if_neg here, if_neg (Ne.symm here)]
        rfl
    next =>
      split
      next less =>
        -- the key comes before all others, so nothing was counted for it
        have none : count ((k, n) :: rest) key = 0 :=
          count_eq_zero (List.forall_mem_cons.mpr
            ⟨less, fun e mem => String.lt_trans less (before e mem)⟩)
        rw [count_cons key]
        by_cases here : other = key
        · rw [if_pos here, if_pos here.symm, here, none]
        · rw [if_neg here, if_neg (Ne.symm here)]
          rfl
      next differ _ =>
        rw [count_cons, count_cons, ih tail]
        by_cases here : other = k
        · rw [if_pos here, if_pos here, if_neg fun eq => differ (beq_iff_eq.mpr (eq.trans here))]
          rfl
        · rw [if_neg here, if_neg here]

theorem ordered_ofKeys (keys : List String) : (ofKeys keys).Ordered := by
  induction keys using List.reverseRecOn with
  | nil => exact .nil
  | append_singleton keys key ih =>
    rw [ofKeys, List.foldl_append]
    exact ih.increment key

/-- The number of a key is how often it occurs. -/
theorem count_ofKeys (keys : List String) (key : String) :
    (ofKeys keys).count key = List.count key keys := by
  induction keys using List.reverseRecOn with
  | nil => rfl
  | append_singleton keys last ih =>
    rw [ofKeys, List.foldl_append, List.count_append, ← ih, List.count_singleton]
    simp only [beq_iff_eq]
    exact count_increment (ordered_ofKeys keys) last key

end Counts

/-! ## Groups of notes -/

/-- Things are counted once each when they are counted by place. -/
theorem countP_places {α : Type} {n : Nat} {place : α → Option Nat} {xs : List α}
    (below : ∀ x ∈ xs, ∀ i, place x = some i → i < n) (p : α → Bool) :
    ∑ i : Fin n, (xs.filter (place · == some i.val)).countP p +
      (xs.filter (place · == none)).countP p = xs.countP p := by
  induction xs with
  | nil => simp
  | cons x xs ih =>
    obtain ⟨here, others⟩ := List.forall_mem_cons.mp below
    have ih := ih others
    simp only [List.countP_filter, List.countP_cons, Finset.sum_add_distrib] at ih ⊢
    have once : (∑ i : Fin n, if (p x && place x == some i.val) = true then 1 else 0) +
        (if (p x && place x == none) = true then 1 else 0) = if p x = true then 1 else 0 := by
      cases hx : place x with
      | none => simp
      | some i =>
        rw [Finset.sum_eq_single (⟨i, here i hx⟩ : Fin n)]
        · simp
        · intro j _ other
          have differ : i ≠ j.val := fun eq => other (Fin.ext eq.symm)
          simp [differ]
        · exact fun absent => absurd (Finset.mem_univ _) absent
    omega

theorem Tally.count_byKind_of (notes : List Note) (kind : String) :
    (Tally.of notes).byKind.count kind = notes.countP (·.kind == kind) := by
  rw [Tally.of, Counts.count_ofKeys, List.count, List.countP_map]
  rfl

theorem Tally.count_byPlugin_of (notes : List Note) (plugin : String) :
    (Tally.of notes).byPlugin.count plugin = notes.countP (·.plugin == plugin) := by
  rw [Tally.of, Counts.count_ofKeys, List.count, List.countP_map]
  rfl

theorem Tally.total_of (notes : List Note) :
    (Tally.of notes).total = notes.countP fun _ => true :=
  (congrFun List.countP_true notes).symm

/-- A number that counts some of the notes comes to the same by declarations as for all notes. -/
theorem Ledger.sum_summarize (l : Ledger) (decls : List Decl) (number : Tally → Nat)
    {p : Note → Bool} (counts : ∀ notes, number (Tally.of notes) = notes.countP p) :
    ((l.summarize decls).decls.map fun entry => number entry.2).sum +
      number (l.summarize decls).unattributed = number (l.summarize decls).whole := by
  have below : ∀ n ∈ l.notes, ∀ i, innermost decls n.span = some i → i < decls.length := by
    intro n _ i found
    obtain ⟨d, at_place, _⟩ := innermostOf_of_innermost found
    exact (List.getElem?_eq_some_iff.mp at_place).1
  have groups := countP_places below p
  unfold summarize notesAt
  rw [List.mapIdx_eq_ofFn, List.map_ofFn, List.sum_ofFn]
  simp only [Function.comp_def, counts]
  exact groups

/-- The counts of the declarations and of the other notes add up to those of all notes. -/
structure Summary.AddsUp (s : Summary) (notes : List Note) : Prop where
  total : (s.decls.map (·.2.total)).sum + s.unattributed.total = s.whole.total
  byKind : ∀ kind, (s.decls.map (·.2.byKind.count kind)).sum + s.unattributed.byKind.count kind =
    s.whole.byKind.count kind
  byPlugin : ∀ plugin, (s.decls.map (·.2.byPlugin.count plugin)).sum +
    s.unattributed.byPlugin.count plugin = s.whole.byPlugin.count plugin
  whole_total : s.whole.total = notes.length
  whole_byKind : ∀ kind, s.whole.byKind.count kind = notes.countP (·.kind == kind)
  whole_byPlugin : ∀ plugin, s.whole.byPlugin.count plugin = notes.countP (·.plugin == plugin)

theorem Ledger.addsUp_summarize (l : Ledger) (decls : List Decl) :
    (l.summarize decls).AddsUp l.notes where
  total := l.sum_summarize decls (·.total) Tally.total_of
  byKind kind := l.sum_summarize decls (·.byKind.count kind) (Tally.count_byKind_of · kind)
  byPlugin plugin :=
    l.sum_summarize decls (·.byPlugin.count plugin) (Tally.count_byPlugin_of · plugin)
  whole_total := rfl
  whole_byKind := Tally.count_byKind_of l.notes
  whole_byPlugin := Tally.count_byPlugin_of l.notes

/-- Every note has one place: a declaration around its span such that the declarations inside it
that also are around the span are around the declaration too, or none when no declaration is around
the span.  The summary counts the notes by place, and the counts add up. -/
theorem Ledger.summarize_attributes (l : Ledger) (decls : List Decl) :
    ∃ place : Note → Option Nat,
      (∀ n ∈ l.notes,
        (place n = none ↔ ∀ d ∈ decls, ¬d.span.Encloses n.span) ∧
          ∀ i, place n = some i → ∃ d, decls[i]? = some d ∧ d.span.Encloses n.span ∧
            ∀ e ∈ decls, e.span.Encloses n.span → d.span.Encloses e.span →
              e.span.Encloses d.span) ∧
      (l.summarize decls).decls =
        decls.mapIdx (fun i d => (d, Tally.of (l.notes.filter (place · == some i)))) ∧
      (l.summarize decls).unattributed = Tally.of (l.notes.filter (place · == none)) ∧
      (l.summarize decls).AddsUp l.notes := by
  refine ⟨fun n => innermost decls n.span, fun n _ => ⟨?_, fun i found => ?_⟩,
    rfl, rfl, l.addsUp_summarize decls⟩
  · simp only [innermost_eq_none_iff, ← Span.contains_iff_encloses, Bool.not_eq_true]
  · obtain ⟨d, here, contains, least⟩ := innermostOf_of_innermost found
    simp only [Span.contains_iff_encloses] at contains least
    exact ⟨d, here, contains, least⟩

/-- A declaration inside another one. -/
def nestedDecls : List Decl :=
  [⟨"around", ⟨⟨"a.oz", 1, 1, 0⟩, ⟨"a.oz", 9, 1, 0⟩⟩⟩,
    ⟨"inside", ⟨⟨"a.oz", 2, 1, 0⟩, ⟨"a.oz", 3, 1, 0⟩⟩⟩]

/-- A note inside both of `nestedDecls`, and one behind them. -/
def twoNotes : Ledger where
  run := ""
  unit := "a.oz"
  notes := [{ span := .point "a.oz" 2 5 }, { span := .point "a.oz" 9 5 }]

/-- The first note goes to the inner declaration, and the second one to none. -/
theorem Ledger.summarize_attributes_twoNotes :
    (twoNotes.summarize nestedDecls).decls.map (·.2.total) = [0, 1] ∧
      (twoNotes.summarize nestedDecls).unattributed.total = 1 ∧
      (twoNotes.summarize nestedDecls).AddsUp twoNotes.notes := by
  obtain ⟨place, attributes, decls, unattributed, adds⟩ :=
    twoNotes.summarize_attributes nestedDecls
  obtain ⟨first, second⟩ := List.forall_mem_cons.mp attributes
  have behind : place { span := .point "a.oz" 9 5 } = none :=
    (List.forall_mem_singleton.mp second).1.mpr (by decide)
  have within : place { span := .point "a.oz" 2 5 } = some 1 := by
    cases found : place { span := .point "a.oz" 2 5 } with
    | none => exact absurd (first.1.mp found _ (.head _)) (by decide)
    | some i =>
      obtain ⟨d, here, -, least⟩ := first.2 i found
      match i with
      | 0 =>
        cases here
        exact absurd (least _ (.tail _ (.head _)) (by decide) (by decide)) (by decide)
      | 1 => rfl
      | _ + 2 => cases here
  refine ⟨?_, ?_, adds⟩
  · rw [decls]
    simp [twoNotes, nestedDecls, behind, within, Tally.of]
  · rw [unattributed]
    simp [twoNotes, behind, within, Tally.of]

end ResourceSafety
