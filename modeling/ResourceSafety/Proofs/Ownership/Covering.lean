import ResourceSafety.Ownership.Tracker
import ResourceSafety.Proofs.Scope.Cells

/-!
# Trackers that cover others

A walk over a whole program joins records where arms meet.  A walk over a single way
through it does not.  The record of the first *covers* that of the second when it is
usable only if the other one is.

* A record accepts an access only if the covered one accepts it too, or refuses it for
  the sake of a borrow alone (`Record.Covers.refusal`).
* A join covers whatever one of its arms covers (`mergeRecord_covers`).  The two ways in
  which arms meet, by agreement and by joining, are both cautious enough.

The tracker is then opened once for each request, as a stack of cells.  Two trackers are
compared by any relation of records that accesses keep (`Record.Cautious`), and covering
is one of them.
-/

namespace ResourceSafety.Ownership

/-! ## Records -/

namespace Record

/-- What is changed beside the mutable borrow leaves it as it is. -/
@[simp] theorem mutable_mk (r : Record) (state : State) (movedAt : Span) (shared : List Span) :
    mutable ⟨state, movedAt, shared, r.hasMutable, r.mutableAt⟩ = r.mutable := rfl

@[simp] theorem mutable_taken (state : State) (movedAt s : Span) (shared : List Span) :
    mutable ⟨state, movedAt, shared, true, s⟩ = some s := rfl

@[simp] theorem mutable_ended (state : State) (movedAt s : Span) (shared : List Span) :
    mutable ⟨state, movedAt, shared, false, s⟩ = none := rfl

/-- Where arms meet, the mutable borrow of the first one that has one stays. -/
@[simp] theorem mutable_met (r other : Record) (state : State) (movedAt : Span)
    (shared : List Span) :
    mutable ⟨state, movedAt, shared, r.hasMutable || other.hasMutable,
      if other.hasMutable = true ∧ r.hasMutable = false then other.mutableAt else r.mutableAt⟩ =
      (r.mutable <|> other.mutable) := by
  cases here : r.hasMutable <;> cases there : other.hasMutable <;> simp [mutable, here, there]

/-- The value is there for the second record if it is for the first. -/
def Covers (r p : Record) : Prop := r.state.isUsable = true → p.state.isUsable = true

theorem isUsable_borrowState (r : Record) : r.borrowState.isUsable = true := by
  simp only [borrowState]
  split
  · rfl
  · split <;> rfl

/-- Setting the state from the borrows keeps a value there, or gone. -/
theorem isUsable_settle (r : Record) : r.settle.state.isUsable = r.state.isUsable := by
  cases usable : r.state.isUsable <;> simp [settle, usable, isUsable_borrowState]

theorem isUsable_release {r r' : Record} (h : r.release? = some r') :
    r'.state.isUsable = r.state.isUsable := by
  simp only [release?] at h
  split at h
  · cases h
    exact isUsable_settle _
  · split at h
    · cases h
    · cases h
      exact isUsable_settle _

/-- The findings of an access that say nothing about a move. -/
def BorrowFinding (v : Violation) : Prop :=
  v.kind = .borrowExclusivity ∨ v.kind = .borrowAfterMove ∧ v.reason = "moved while borrowed"

/-- A value that is there is refused only for the sake of a borrow. -/
theorem borrowFinding_of_refusal {r : Record} {name : String} {site : Span} {a : Access}
    {v : Violation} (usable : r.state.isUsable = true) (h : r.refusal? name site a = some v) :
    BorrowFinding v := by
  cases a with
  | read => simp [refusal?, usable] at h
  | move =>
    simp only [refusal?] at h
    cases state : r.state <;> simp only [state] at h <;> cases h
    · exact .inr ⟨rfl, rfl⟩
    · exact .inr ⟨rfl, rfl⟩
    · simp [state, State.isUsable] at usable
    · simp [state, State.isUsable] at usable
  | borrow exclusive =>
    simp only [refusal?, usable, Bool.not_true, Bool.false_eq_true, if_false] at h
    split at h
    · cases h
      exact .inl rfl
    · split at h
      · cases h
        exact .inl rfl
      · cases h
    · cases h

/-- What is gone is refused. -/
theorem isUsable_of_accepted {r : Record} {name : String} {site : Span} {a : Access}
    (h : r.refusal? name site a = none) : r.state.isUsable = true := by
  cases a <;> cases state : r.state <;> simp [refusal?, state, State.isUsable] at h ⊢

/-- An accepted access makes a value unusable only by moving it. -/
theorem isUsable_after {r : Record} (usable : r.state.isUsable = true) (site : Span) (a : Access) :
    (r.after site a).state.isUsable = true ↔ a ≠ .move := by
  cases a with
  | read => simpa [after] using usable
  | move => simp [after, State.isUsable]
  | borrow exclusive => cases exclusive <;> simp [after, isUsable_settle, usable]

/-- A relation of records that accesses keep, as long as the first record accepts them.
The second one may then have findings, of the kind `T`. -/
class Cautious (R : Record → Record → Prop) (T : outParam (Violation → Prop)) : Prop where
  start : R {} {}
  refusal {r p : Record} {name : String} {site : Span} {a : Access} {v : Violation} : R r p →
    r.refusal? name site a = none → p.refusal? name site a = some v → T v
  after {r p : Record} {name : String} {site : Span} {a : Access} : R r p →
    r.refusal? name site a = none → p.refusal? name site a = none →
    R (r.after site a) (p.after site a)
  after_refused {r p : Record} {name : String} {site : Span} {a : Access} {v : Violation} :
    R r p → r.refusal? name site a = none → p.refusal? name site a = some v →
    R (r.after site a) p
  release {r p r' p' : Record} : R r p → r.release? = some r' → p.release? = some p' → R r' p'

namespace Covers

theorem refl (r : Record) : Covers r r := id

variable {r p : Record}

/-- The covered record accepts what the other one accepts, borrows apart. -/
theorem refusal (h : Covers r p) {name : String} {site : Span} {a : Access}
    (accepted : r.refusal? name site a = none) {v : Violation}
    (refused : p.refusal? name site a = some v) : BorrowFinding v :=
  borrowFinding_of_refusal (h (isUsable_of_accepted accepted)) refused

theorem after (h : Covers r p) {name : String} {site : Span} {a : Access}
    (accepted : r.refusal? name site a = none) :
    Covers (r.after site a) (p.after site a) := by
  have usable := isUsable_of_accepted accepted
  intro there
  exact (isUsable_after (h usable) site a).mpr ((isUsable_after usable site a).mp there)

/-- The covered record refuses the access and stays as it is. -/
theorem after_refused (h : Covers r p) {name : String} {site : Span} {a : Access}
    (accepted : r.refusal? name site a = none) : Covers (r.after site a) p :=
  fun _ => h (isUsable_of_accepted accepted)

theorem release (h : Covers r p) {r' p' : Record} (hr : r.release? = some r')
    (hp : p.release? = some p') : Covers r' p' := by
  intro usable
  rw [isUsable_release hr] at usable
  rw [isUsable_release hp]
  exact h usable

end Covers

instance : Cautious Covers BorrowFinding where
  start := .refl _
  refusal h accepted refused := h.refusal accepted refused
  after h accepted _ := h.after accepted
  after_refused h accepted _ := h.after_refused accepted
  release h hr hp := h.release hr hp

/-! ## Joins -/

/-- What two arms meet in.  A value that is gone on some of the ways is unknown, one that was
moved on both stays moved, and one that is there on both keeps the borrows of both.  The move site
that was set first stays. -/
theorem join_cases (r other : Record) :
    let site := if r.movedAt.isZero then other.movedAt else r.movedAt
    (r.state.isUsable = false ∨ other.state.isUsable = false) ∧
        r.join other = ⟨.unknown, site, [], false, .zero⟩ ∨
      r.state = .moved ∧ r.join other = { r with movedAt := site } ∨
      r.state.isUsable = true ∧ other.state.isUsable = true ∧ r.join other = settle { r with
        movedAt := site
        shared := addSpans r.shared other.shared
        hasMutable := r.hasMutable || other.hasMutable
        mutableAt := if other.hasMutable && !r.hasMutable then other.mutableAt else r.mutableAt } := by
  intro site
  have dated : (if r.movedAt.isZero then { r with movedAt := other.movedAt } else r) =
      { r with movedAt := site } := by
    simp only [site]
    split <;> rfl
  simp only [join, dated]
  split
  next torn =>
    refine .inl ⟨?_, rfl⟩
    cases here : r.state <;> cases there : other.state <;>
      simp [here, there, State.isUsable] at torn ⊢
  next whole =>
    split
    next moved => exact .inr (.inl ⟨moved, rfl⟩)
    next unmoved =>
      refine .inr (.inr ⟨?_, ?_, rfl⟩)
      all_goals
        cases here : r.state <;> cases there : other.state <;>
          simp [here, there, State.isUsable] at whole unmoved ⊢

theorem isUsable_of_join {r other : Record} (h : (r.join other).state.isUsable = true) :
    r.state.isUsable = true ∧ other.state.isUsable = true := by
  obtain ⟨-, torn⟩ | ⟨moved, stays⟩ | ⟨here, there, -⟩ := join_cases r other
  · simp [torn, State.isUsable] at h
  · simp [stays, moved, State.isUsable] at h
  · exact ⟨here, there⟩

theorem isUsable_of_foldl_join {ends : List Record} {first : Record}
    (h : (ends.foldl join first).state.isUsable = true) :
    first.state.isUsable = true ∧ ∀ r ∈ ends, r.state.isUsable = true := by
  induction ends generalizing first with
  | nil => exact ⟨h, fun r mem => absurd mem List.not_mem_nil⟩
  | cons r rest ih =>
    obtain ⟨joined, others⟩ := ih h
    obtain ⟨hf, hr⟩ := isUsable_of_join joined
    refine ⟨hf, fun x mem => ?_⟩
    cases mem with
    | head => exact hr
    | tail _ mem => exact others x mem

theorem state_eq_of_agrees {r other : Record} (h : r.agrees other = true) :
    r.state = other.state := by
  simp only [agrees, Bool.and_eq_true, beq_iff_eq] at h
  exact h.1.1.1

end Record

namespace Tracker

/-- A property that joins keep holds where arms meet, if it holds at the end of each. -/
theorem mergeRecord_of_join {P : Record → Prop}
    (join : ∀ r other, P r → P other → P (r.join other)) {id : Nat} {first : Record}
    {arms : List Snapshot} (h : P first)
    (others : ∀ arm ∈ arms, ∀ r, arm.lookup id = some r → P r) :
    P (mergeRecord id first arms).1 := by
  have ends : ∀ r ∈ arms.filterMap (·.lookup id), P r := by
    intro r mem
    obtain ⟨arm, ma, look⟩ := List.mem_filterMap.mp mem
    exact others arm ma r look
  simp only [mergeRecord]
  split
  · exact h
  · exact List.foldlRecOn _ _ h fun r hr other mem => join r other hr (ends other mem)

/-- The arms meet in a record that is usable only if the record of each arm is. -/
theorem isUsable_of_mergeRecord {id : Nat} {first : Record} {arms : List Snapshot}
    (h : (mergeRecord id first arms).1.state.isUsable = true) :
    first.state.isUsable = true ∧
      ∀ arm ∈ arms, ∀ r, arm.lookup id = some r → r.state.isUsable = true := by
  have known : ∀ arm ∈ arms, ∀ r, arm.lookup id = some r → r ∈ arms.filterMap (·.lookup id) :=
    fun arm mem r look => List.mem_filterMap.mpr ⟨arm, mem, look⟩
  simp only [mergeRecord] at h
  split at h
  next alike =>
    refine ⟨h, fun arm mem r look => ?_⟩
    rw [Record.state_eq_of_agrees (List.all_eq_true.mp alike r (known arm mem r look))]
    exact h
  next =>
    obtain ⟨hf, others⟩ := Record.isUsable_of_foldl_join h
    exact ⟨hf, fun arm mem r look => others r (known arm mem r look)⟩

/-- A record that is joined with others passes on what it is related to. -/
def Joins (R : Record → Record → Prop) (r : Record) : Prop :=
  ∀ {id : Nat} {first p : Record} {rest : List Snapshot},
    (r = first ∨ ∃ arm ∈ rest, arm.lookup id = some r) → R r p → R (mergeRecord id first rest).1 p

/-- The record where arms meet covers what the record of one arm covers. -/
theorem mergeRecord_covers (r : Record) : Joins Record.Covers r := by
  intro id first p rest one h usable
  obtain ⟨hf, others⟩ := isUsable_of_mergeRecord usable
  obtain rfl | ⟨arm, mem, look⟩ := one
  · exact h hf
  · exact h (others arm mem r look)

end Tracker

/-! ## The cells of a tracker -/

/-- A binding as a cell. -/
def Binding.cell (b : Binding) : Cell Record := ⟨b.id, b.name, b.record⟩

namespace Tracker

variable {t t' p p' : Tracker}

/-- The bindings of the open scopes as cells. -/
def cells (t : Tracker) : Cells Record := t.scopes.map (·.map Binding.cell)

/-- The numbers of the bindings are all different, and the next one is new. -/
structure Numbered (t : Tracker) : Prop where
  distinct : t.cells.ids.Nodup
  below : ∀ i ∈ t.cells.ids, i < t.next

theorem flatten_cells (t : Tracker) : t.cells.flatten = t.bindings.map Binding.cell := by
  simp [cells, bindings, List.map_flatten]

theorem snapshot_eq (t : Tracker) :
    t.snapshot = t.cells.flatten.map fun c => (c.id, c.value) := by
  simp [snapshot, flatten_cells, Binding.cell]

theorem ids_cells (t : Tracker) : t.cells.ids = t.bindings.map (·.id) := by
  simp [Cells.ids, flatten_cells, Binding.cell]

theorem find?_cells {name : String} {b : Binding} (h : t.find? name = some b) :
    t.cells.find? name = some b.cell := by
  simp only [find?] at h
  simp only [Cells.find?, flatten_cells, List.find?_map]
  exact congrArg (Option.map Binding.cell) h

theorem lookup_ok {name : String} {b : Binding} (h : t.lookup name = .ok b) :
    t.find? name = some b := by
  simp only [lookup] at h
  cases found : t.find? name with
  | none => simp [found] at h
  | some x => simpa [found] using h

theorem Numbered.of_outline (n : t.Numbered) (same : t'.cells.outline = t.cells.outline)
    (next : t'.next = t.next) : t'.Numbered := by
  have ids : t'.cells.ids = t.cells.ids := by
    rw [Cells.ids_eq_outline, same, ← Cells.ids_eq_outline]
  exact ⟨ids ▸ n.distinct, by rw [ids, next]; exact n.below⟩

theorem numbered_empty : empty.Numbered :=
  ⟨List.nodup_nil, fun _ mem => absurd mem List.not_mem_nil⟩

/-! ## Requests -/

theorem cells_mapBindings (t : Tracker) {f : Binding → Binding} {g : Nat → Record → Record}
    (h : ∀ b ∈ t.bindings, (f b).cell = { b.cell with value := g b.id b.record }) :
    (t.mapBindings f).cells = t.cells.adjust g := by
  have scopes : (t.mapBindings f).scopes = t.scopes.map (·.map f) := rfl
  simp only [cells, scopes, Cells.adjust, List.map_map]
  refine List.map_congr_left fun scope ms => ?_
  simp only [Function.comp_def, List.map_map]
  exact List.map_congr_left fun b mb => h b (List.mem_flatten.mpr ⟨scope, ms, mb⟩)

/-- One binding gets a new record, and the others stay. -/
theorem cells_put (n : t.Numbered) {name : String} {b : Binding} (h : t.find? name = some b)
    (r : Record) (kind : EventKind) (site : Span) :
    (t.put (b.advance r kind site)).cells = t.cells.assign b.id r := by
  refine cells_mapBindings t fun old mem => ?_
  show (if old.id = b.id then b.advance r kind site else old).cell = _
  by_cases same : old.id = b.id
  · have distinct := n.distinct
    rw [ids_cells] at distinct
    have old_eq : old = b :=
      List.inj_on_of_nodup_map distinct mem (List.mem_of_find?_eq_some h) same
    subst old_eq
    simp [Binding.cell, Binding.advance]
  · simp [same, Binding.cell]

/-- The innermost scope is closed, and the others stay. -/
theorem exit_cases (h : t.exit = .ok t') : t'.scopes = t.outer ∧ t'.next = t.next := by
  simp only [exit] at h
  split at h
  · cases h
  next s rest outer =>
    cases h
    exact ⟨outer.symm, rfl⟩

theorem mem_bindings_of_exit (h : t.exit = .ok t') {b : Binding} (mem : b ∈ t'.bindings) :
    b ∈ t.bindings := by
  rw [bindings, (exit_cases h).1] at mem
  exact List.mem_append_right _ mem

theorem cells_exit (h : t.exit = .ok t') : t'.cells = t.cells.tail ∧ t'.next = t.next := by
  obtain ⟨outer, next⟩ := exit_cases h
  exact ⟨by rw [cells, outer]; rfl, next⟩

theorem numbered_exit (n : t.Numbered) (h : t.exit = .ok t') : t'.Numbered := by
  obtain ⟨cells, next⟩ := cells_exit h
  have sub := Cells.ids_tail_sublist t.cells
  rw [← cells] at sub
  exact ⟨n.distinct.sublist sub, fun i mem => next ▸ n.below i (sub.subset mem)⟩

theorem cells_enter (t : Tracker) : t.enter.cells = [] :: t.cells := rfl

theorem numbered_enter (n : t.Numbered) : t.enter.Numbered := ⟨n.distinct, n.below⟩

/-- The innermost scope, which does not have the name, gets an owned binding. -/
theorem define_cases {name : String} {site : Span} (h : t.define name site = .ok t') :
    (∀ b ∈ t.inner, b.name ≠ name) ∧ t'.next = t.next + 1 ∧
      t'.scopes = (t.inner ++ [⟨t.next, name, site, {}, [⟨.define, site⟩]⟩]) :: t.outer := by
  simp only [define] at h
  split at h
  · cases h
  next new =>
    cases h
    exact ⟨by simpa using new, rfl, rfl⟩

theorem mem_bindings_of_define {name : String} {site : Span} (h : t.define name site = .ok t')
    {b : Binding} (mem : b ∈ t'.bindings) :
    b ∈ t.bindings ∨ b = ⟨t.next, name, site, {}, [⟨.define, site⟩]⟩ := by
  rw [bindings, (define_cases h).2.2, List.flatten_cons, List.append_assoc] at mem
  rw [bindings, scopes, List.flatten_cons, or_comm]
  simpa [or_left_comm] using mem

theorem cells_define {name : String} {site : Span} (h : t.define name site = .ok t') :
    t'.cells = t.cells.add ⟨t.next, name, {}⟩ ∧ t'.next = t.next + 1 := by
  obtain ⟨-, next, new⟩ := define_cases h
  refine ⟨?_, next⟩
  rw [cells, new]
  simp [cells, scopes, Cells.add, Binding.cell]

theorem numbered_define (n : t.Numbered) {name : String} {site : Span}
    (h : t.define name site = .ok t') : t'.Numbered := by
  obtain ⟨cells, next⟩ := cells_define h
  have perm := Cells.ids_add (s := t.cells) (by simp [Tracker.cells, scopes])
    ⟨t.next, name, ({} : Record)⟩
  rw [← cells] at perm
  refine ⟨perm.nodup_iff.mpr (List.nodup_cons.mpr ⟨?_, n.distinct⟩), fun i mem => ?_⟩
  · exact fun mem => absurd (n.below _ mem) (Nat.lt_irrefl _)
  · rw [next]
    obtain rfl | mem := List.mem_cons.mp (perm.mem_iff.mp mem)
    · exact Nat.lt_succ_self _
    · exact Nat.lt_succ_of_lt (n.below i mem)

/-- An access is refused and changes nothing, or it is accepted. -/
theorem access_cases {a : Access} {name : String} {site : Span}
    {v : Option Violation} (h : t.access a name site = .ok (v, t')) :
    ∃ b, t.find? name = some b ∧ v = b.record.refusal? name site a ∧
      t' = if v.isNone then t.put (b.advance (b.record.after site a) (.ofAccess a) site) else t := by
  simp only [access] at h
  cases look : t.lookup name with
  | error fault => rw [look] at h; cases h
  | ok b =>
    rw [look] at h
    refine ⟨b, lookup_ok look, ?_⟩
    cases refused : b.record.refusal? name site a with
    | some w =>
      simp only [bind, Except.bind, refused, pure, Except.pure] at h
      cases h
      exact ⟨rfl, rfl⟩
    | none =>
      simp only [bind, Except.bind, refused, pure, Except.pure] at h
      cases h
      exact ⟨rfl, rfl⟩

theorem release_cases {name : String} {site : Span}
    (h : t.release name site = .ok t') :
    ∃ b r, t.find? name = some b ∧ b.record.release? = some r ∧
      t' = t.put (b.advance r .release site) := by
  simp only [release] at h
  cases look : t.lookup name with
  | error fault => rw [look] at h; cases h
  | ok b =>
    rw [look] at h
    cases ended : b.record.release? with
    | none => simp [bind, Except.bind, ended, throw, throwThe, MonadExceptOf.throw] at h
    | some r =>
      simp only [bind, Except.bind, ended, pure, Except.pure] at h
      cases h
      exact ⟨b, r, lookup_ok look, ended, rfl⟩

/-- What an access comes to: a refusal that changes nothing, or one new record. -/
theorem access_ok {a : Access} {name : String} {site : Span} {v : Option Violation}
    (n : t.Numbered) (h : t.access a name site = .ok (v, t')) :
    ∃ b, t.find? name = some b ∧ v = b.record.refusal? name site a ∧ t'.next = t.next ∧
      t'.cells = if v.isNone then t.cells.assign b.id (b.record.after site a) else t.cells := by
  obtain ⟨b, found, answer, rfl⟩ := access_cases h
  refine ⟨b, found, answer, ?_⟩
  cases v with
  | some w => exact ⟨rfl, rfl⟩
  | none => exact ⟨rfl, cells_put n found _ _ _⟩

theorem release_ok {name : String} {site : Span} (n : t.Numbered)
    (h : t.release name site = .ok t') :
    ∃ b r, t.find? name = some b ∧ b.record.release? = some r ∧ t'.next = t.next ∧
      t'.cells = t.cells.assign b.id r := by
  obtain ⟨b, r, found, ended, rfl⟩ := release_cases h
  exact ⟨b, r, found, ended, rfl, cells_put n found _ _ _⟩

theorem outline_access {a : Access} {name : String} {site : Span} {v : Option Violation}
    (n : t.Numbered) (h : t.access a name site = .ok (v, t')) :
    t'.cells.outline = t.cells.outline ∧ t'.next = t.next := by
  obtain ⟨b, -, -, next, cells⟩ := access_ok n h
  refine ⟨?_, next⟩
  rw [cells]
  split
  · exact Cells.outline_adjust _ _
  · rfl

theorem outline_release {name : String} {site : Span} (n : t.Numbered)
    (h : t.release name site = .ok t') :
    t'.cells.outline = t.cells.outline ∧ t'.next = t.next := by
  obtain ⟨b, r, -, -, next, cells⟩ := release_ok n h
  exact ⟨by rw [cells]; exact Cells.outline_adjust _ _, next⟩

/-! ## Covering -/

variable {R : Record → Record → Prop} {T : Violation → Prop}

/-- Each record of the first tracker is related to the one in its place in the second. -/
def Covers (R : Record → Record → Prop) (t p : Tracker) : Prop := t.cells.Covers R p.cells

namespace Covers

theorem exit (h : t.Covers R p) (ht : t.exit = .ok t') (hp : p.exit = .ok p') :
    t'.Covers R p' := by
  simp only [Covers, (cells_exit ht).1, (cells_exit hp).1]
  exact Cells.Covers.tail h

theorem define [Record.Cautious R T] (h : t.Covers R p) {name : String} {site : Span}
    (ht : t.define name site = .ok t') (hp : p.define name site = .ok p') : t'.Covers R p' := by
  simp only [Covers, (cells_define ht).1, (cells_define hp).1]
  exact Cells.Covers.add h ⟨rfl, Record.Cautious.start⟩

/-- The first tracker accepts the access.  Then the second one accepts it too, or has a
finding that is allowed. -/
theorem access [Record.Cautious R T] (h : t.Covers R p) (n : t.Numbered) (m : p.Numbered)
    {a : Access} {name : String} {site : Span} {v : Option Violation}
    (ht : t.access a name site = .ok (none, t'))
    (hp : p.access a name site = .ok (v, p')) :
    t'.Covers R p' ∧ ∀ w, v = some w → T w := by
  obtain ⟨b, found, accepted, -, cells⟩ := access_ok n ht
  obtain ⟨c, found', answer, -, cells'⟩ := access_ok m hp
  have there := find?_cells found
  have there' := find?_cells found'
  have records : R b.record c.record := Cells.Covers.found h n.distinct m.distinct there there'
  simp only [Option.isNone_none, if_true] at cells
  refine ⟨?_, fun w some =>
    Record.Cautious.refusal records accepted.symm (answer.symm.trans some)⟩
  simp only [Covers, cells, cells']
  cases v with
  | none =>
    exact Cells.Covers.assign h n.distinct m.distinct there there'
      (Record.Cautious.after records accepted.symm answer.symm)
  | some w =>
    -- the second tracker stays as it is, as if the binding got its own record again
    have stays := Cells.Covers.assign h n.distinct m.distinct there there'
      (Record.Cautious.after_refused records accepted.symm answer.symm)
    rw [show c.record = c.cell.value from rfl, Cells.assign_found m.distinct there'] at stays
    exact stays

theorem release [Record.Cautious R T] (h : t.Covers R p) (n : t.Numbered) (m : p.Numbered)
    {name : String} {site : Span} (ht : t.release name site = .ok t')
    (hp : p.release name site = .ok p') : t'.Covers R p' := by
  obtain ⟨b, r, found, ended, -, cells⟩ := release_ok n ht
  obtain ⟨c, r', found', ended', -, cells'⟩ := release_ok m hp
  have there := find?_cells found
  have there' := find?_cells found'
  have records : R b.record c.record := Cells.Covers.found h n.distinct m.distinct there there'
  simp only [Covers, cells, cells']
  exact Cells.Covers.assign h n.distinct m.distinct there there'
    (Record.Cautious.release records ended ended')

end Covers

/-! ## Rewinds and joins -/

theorem cells_restore (t : Tracker) (s : Snapshot) :
    (t.restore s).cells = t.cells.adjust fun i now => (s.lookup i).getD now := by
  refine cells_mapBindings t fun b _ => ?_
  cases s.lookup b.id <;> simp [Binding.cell]

theorem cells_merge (t : Tracker) (site : Span) (first : Snapshot) (rest : List Snapshot) :
    (t.merge site (first :: rest)).cells = t.cells.adjust fun i now =>
      match first.lookup i with
      | none => now
      | some r => (mergeRecord i r rest).1 := by
  refine cells_mapBindings t fun b _ => ?_
  cases first.lookup b.id with
  | none => simp [Binding.cell]
  | some r =>
    rcases merged : mergeRecord b.id r rest with ⟨r', alike⟩
    cases alike <;> simp [Binding.cell, Binding.advance, merged]

theorem outline_restore (t : Tracker) (s : Snapshot) :
    (t.restore s).cells.outline = t.cells.outline := by
  rw [cells_restore]
  exact Cells.outline_adjust _ _

theorem outline_merge (t : Tracker) (site : Span) (arms : List Snapshot) :
    (t.merge site arms).cells.outline = t.cells.outline ∧ (t.merge site arms).next = t.next := by
  cases arms with
  | nil => exact ⟨rfl, rfl⟩
  | cons first rest => exact ⟨by rw [cells_merge]; exact Cells.outline_adjust _ _, rfl⟩

theorem lookup_snapshot (n : t.Numbered) {c : Cell Record} (mem : c ∈ t.cells.flatten) :
    t.snapshot.lookup c.id = some c.value := by
  rw [snapshot_eq]
  exact Cells.lookup_of_mem n.distinct mem

/-- A tracker with the same outline knows the same numbers, and under them the same names. -/
theorem exists_lookup_snapshot (n : t.Numbered) (same : t.cells.outline = t'.cells.outline)
    {c : Cell Record} (mem : c ∈ t'.cells.flatten) :
    ∃ c' ∈ t.cells.flatten, c'.name = c.name ∧ t.snapshot.lookup c.id = some c'.value := by
  obtain ⟨c', mem', id, name⟩ := Cells.exists_of_outline same mem
  exact ⟨c', mem', name, id ▸ lookup_snapshot n mem'⟩

/-- A rewound tracker covers what the tracker covered to which it is rewound. -/
theorem Covers.restore {e : Tracker} (h : e.Covers R p) (n : e.Numbered)
    (same : t.cells.outline = e.cells.outline) : (t.restore e.snapshot).Covers R p := by
  simp only [Covers, cells_restore]
  refine Cells.Covers.mend h same fun c mem now w covers => ?_
  rw [lookup_snapshot n mem]
  exact covers

/-- A joined tracker covers what one of its arms covers. -/
theorem Covers.merge {e : Tracker} (h : e.Covers R p) (site : Span) {arms : List Snapshot}
    (joins : ∀ c ∈ e.cells.flatten, Joins R c.value)
    (alike : ∀ s ∈ arms, ∃ t' : Tracker, s = t'.snapshot ∧ t'.Numbered ∧
      t'.cells.outline = t.cells.outline)
    (n : e.Numbered) (same : e.cells.outline = t.cells.outline) (mem : e.snapshot ∈ arms) :
    (t.merge site arms).Covers R p := by
  cases arms with
  | nil => cases mem
  | cons first rest =>
    simp only [Covers, cells_merge]
    refine Cells.Covers.mend h same.symm fun c inside now w covers => ?_
    obtain ⟨t', rfl, n', same'⟩ := alike first List.mem_cons_self
    obtain ⟨c', -, -, look⟩ := exists_lookup_snapshot n' (same'.trans same.symm) inside
    rw [look]
    refine joins c inside ?_ covers
    have own := lookup_snapshot n inside
    obtain here | there := List.mem_cons.mp mem
    · rw [here, look] at own
      exact .inl (Option.some.inj own).symm
    · exact .inr ⟨e.snapshot, there, own⟩

end Tracker

end ResourceSafety.Ownership
