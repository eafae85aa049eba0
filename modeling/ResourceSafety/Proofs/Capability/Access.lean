import ResourceSafety.Capability.Context

/-!
# Accesses

An access names a capability of an open frame, and fails only if the name means none.  What it
does then depends on the lifecycle of that capability alone.  `Acts` says so, and `Accesses` that
each of the three accesses is of this kind.  Nothing later looks into them again, except to
compare what one access does in two contexts.
-/

namespace ResourceSafety.Capability

/-! ## What is accepted -/

namespace Lifecycle

/-- The capability is not consumed, and cannot be. -/
def Free (l : Lifecycle) : Prop := l.state ≠ .consumed ∧ l.mayConsumedAt = .zero

theorem isZero_iff {s : Span} : s.isZero = true ↔ s = .zero := by
  simp [Span.isZero]

theorem isZero_eq_false_iff {s : Span} : s.isZero = false ↔ s ≠ .zero := by
  rw [Bool.eq_false_iff, ne_eq, isZero_iff]

/-- Exactly a free capability is accepted. -/
theorem refusal?_eq_none {l : Lifecycle} {name reason : String} {site : Span} :
    l.refusal? name site reason = none ↔ l.Free := by
  simp only [refusal?, Free]
  by_cases consumed : l.state = .consumed
  · simp [consumed]
  · by_cases zero : l.mayConsumedAt = .zero
    · simp [consumed, zero, isZero_iff]
    · simp [consumed, zero, isZero_eq_false_iff.mpr zero]

end Lifecycle

namespace Context

variable {c c' : Context} {name : String} {y : Binding}

/-! ## What a name means -/

theorem lookup_eq (h : c.find? name = some y) : c.lookup name = .ok y := by
  rw [lookup, h]

theorem lookup_missing (h : c.find? name = none) : c.lookup name = .error (.unknownBinding name) := by
  rw [lookup, h]

theorem mem_inFrame_of_find? (h : c.find? name = some y) :
    ∃ f ∈ c.frames, y ∈ c.inFrame f := by
  obtain ⟨f, open_, found⟩ := List.exists_of_findSome?_eq_some h
  exact ⟨f, open_, List.mem_of_find?_eq_some found⟩

theorem mem_table_of_find? (h : c.find? name = some y) : y ∈ c.table := by
  obtain ⟨f, -, inside⟩ := mem_inFrame_of_find? h
  exact (List.mem_filter.mp inside).1

theorem frame_mem_of_find? (h : c.find? name = some y) : y.frame ∈ c.frames := by
  obtain ⟨f, open_, inside⟩ := mem_inFrame_of_find? h
  exact beq_iff_eq.mp (List.mem_filter.mp inside).2 ▸ open_

theorem name_of_find? (h : c.find? name = some y) : y.name = name := by
  obtain ⟨f, -, found⟩ := List.exists_of_findSome?_eq_some h
  simpa using List.find?_some found

/-! ## Records that change no lifecycle -/

theorem remark_eq (h : c.find? name = some y) (kind : AccessKind) (site : Span) :
    c.remark name kind site = .ok (c.note y y.life kind site).1 := by
  rw [remark, lookup_eq h]
  rfl

theorem remark_ok {kind : AccessKind} {site : Span} (h : c.remark name kind site = .ok c') :
    ∃ y, c.find? name = some y ∧ c' = (c.note y y.life kind site).1 := by
  cases found : c.find? name with
  | none =>
    rw [remark, lookup_missing found] at h
    cases h
  | some y =>
    rw [remark_eq found] at h
    cases h
    exact ⟨y, rfl, rfl⟩

/-! ## Accesses -/

/-- What an access to the capability `y` comes to.  A free one makes its step and gets a record,
which may complete a race.  One that is not free is reported, and a consumed one stays as it
is.  What is reported is the refusal of the lifecycle, or the race. -/
structure Acts (c : Context) (y : Binding) (step : Lifecycle → Lifecycle) (kind : AccessKind)
    (site : Span) (w : Option Violation) (c' : Context) : Prop where
  changed : c' = c ∨ y.life.state ≠ .consumed ∧ c' = (c.note y (step y.life) kind site).1
  accepted : y.life.Free → c' = (c.note y (step y.life) kind site).1 ∧
    w = if kind = .share then none else c'.eager (c.note y (step y.life) kind site).2
  refused : ¬y.life.Free → w.isSome
  finding : ∀ v, w = some v → (∃ reason, y.life.refusal? y.name site reason = some v) ∨
    c' = (c.note y (step y.life) kind site).1 ∧
      c'.eager (c.note y (step y.life) kind site).2 = some v

theorem Acts.free {step : Lifecycle → Lifecycle} {kind : AccessKind} {site : Span}
    {w : Option Violation} (h : c.Acts y step kind site w c') (silent : w = none) : y.life.Free := by
  refine Classical.byContradiction fun busy => ?_
  simpa [silent] using h.refused busy

/-- A refused access changes nothing. -/
theorem acts_refused {step : Lifecycle → Lifecycle} {kind : AccessKind} {site : Span}
    {reason : String} {v : Violation} (refused : y.life.refusal? y.name site reason = some v) :
    c.Acts y step kind site (some v) c where
  changed := .inl rfl
  accepted free := by
    rw [Lifecycle.refusal?_eq_none.mpr free] at refused
    cases refused
  refused _ := rfl
  finding _ same := .inl ⟨reason, refused.trans same⟩

theorem acts_use (h : c.find? name = some y) (site : Span) :
    ∃ w c', c.use name site = .ok (w, c') ∧
      c.Acts y (fun l => { l with state := .inUse }) .use site w c' := by
  simp only [use, lookup_eq h, bind, Except.bind]
  obtain rfl := name_of_find? h
  cases refused : y.life.refusal? y.name site "" with
  | some w => exact ⟨_, _, rfl, acts_refused refused⟩
  | none =>
    have free := Lifecycle.refusal?_eq_none.mp refused
    exact ⟨_, _, rfl, .inr ⟨free.1, rfl⟩, fun _ => ⟨rfl, rfl⟩, fun busy => absurd free busy,
      fun v race => .inr ⟨rfl, race⟩⟩

theorem acts_share (h : c.find? name = some y) (site : Span) :
    ∃ w c', c.share name site = .ok (w, c') ∧
      c.Acts y (fun l => { l with shared := true }) .share site w c' := by
  simp only [share, lookup_eq h, bind, Except.bind]
  obtain rfl := name_of_find? h
  cases refused : y.life.refusal? y.name site "shared after consumption" with
  | some w => exact ⟨_, _, rfl, acts_refused refused⟩
  | none =>
    have free := Lifecycle.refusal?_eq_none.mp refused
    refine ⟨_, _, rfl, .inr ⟨free.1, rfl⟩, fun _ => ⟨rfl, rfl⟩, fun busy => absurd free busy, ?_⟩
    intro v found
    cases found

theorem acts_consume (h : c.find? name = some y) (site : Span) :
    ∃ w c', c.consume name site = .ok (w, c') ∧
      c.Acts y (·.consume site) .consume site w c' := by
  simp only [consume, lookup_eq h, bind, Except.bind]
  obtain rfl := name_of_find? h
  by_cases consumed : y.life.state = .consumed
  · simp only [consumed, if_true]
    cases refused : y.life.refusal? y.name site "consumed twice" with
    | none => exact absurd consumed (Lifecycle.refusal?_eq_none.mp refused).1
    | some w => exact ⟨_, _, rfl, acts_refused refused⟩
  · -- a capability that may be consumed is reported and consumed all the same
    simp only [consumed, if_false]
    refine ⟨_, _, rfl, .inr ⟨consumed, rfl⟩, fun free => ⟨rfl, ?_⟩, fun busy => ?_, fun v found => ?_⟩
    · rw [Lifecycle.refusal?_eq_none.mpr free]
      rfl
    · cases refused : y.life.refusal? y.name site "" with
      | some w => rfl
      | none => exact absurd (Lifecycle.refusal?_eq_none.mp refused) busy
    · cases refused : y.life.refusal? y.name site "" with
      | some w => exact .inl ⟨_, refused.trans (by simpa [refused] using found)⟩
      | none => exact .inr ⟨rfl, by simpa [refused] using found⟩

/-- An operation on the capability that a name means.  It fails only if there is none. -/
structure Accesses
    (op : Context → String → Span → Except Fault (Option Violation × Context))
    (step : Span → Lifecycle → Lifecycle) (kind : AccessKind) : Prop where
  acts {c : Context} {name : String} {y : Binding} (site : Span) : c.find? name = some y →
    ∃ w c', op c name site = .ok (w, c') ∧ c.Acts y (step site) kind site w c'
  missing {c : Context} {name : String} (site : Span) : c.find? name = none →
    op c name site = .error (.unknownBinding name)

theorem accesses_use : Accesses use (fun _ l => { l with state := .inUse }) .use where
  acts site found := acts_use found site
  missing site none := by simp only [use, lookup_missing none, bind, Except.bind]

theorem accesses_share : Accesses share (fun _ l => { l with shared := true }) .share where
  acts site found := acts_share found site
  missing site none := by simp only [share, lookup_missing none, bind, Except.bind]

theorem accesses_consume : Accesses consume (fun site l => l.consume site) .consume where
  acts site found := acts_consume found site
  missing site none := by simp only [consume, lookup_missing none, bind, Except.bind]

/-- An operation that is answered found its capability. -/
theorem Accesses.acts_ok {op : Context → String → Span → Except Fault (Option Violation × Context)}
    {step : Span → Lifecycle → Lifecycle} {kind : AccessKind} {site : Span} {w : Option Violation}
    (accesses : Accesses op step kind) (h : op c name site = .ok (w, c')) :
    ∃ y, c.find? name = some y ∧ c.Acts y (step site) kind site w c' := by
  cases found : c.find? name with
  | none =>
    rw [accesses.missing site found] at h
    cases h
  | some y =>
    obtain ⟨w', c₁, answer, acts⟩ := accesses.acts site found
    rw [h] at answer
    cases answer
    exact ⟨y, rfl, acts⟩

end Context

end ResourceSafety.Capability
