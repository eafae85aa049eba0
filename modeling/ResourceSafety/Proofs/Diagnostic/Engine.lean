import ResourceSafety.Diagnostic.Engine

/-!
# Errors that an engine holds

The engine drops diagnostics, takes up warnings as errors, and cuts its list off at a limit.
`Engine.add_cases` says once what one more diagnostic can do.

Dropping and taking up look at one diagnostic at a time (`Engine.counts`).  The limit looks at all
of them, but it is only reached when an error is held (`Engine.Honest`).  So whether an engine
holds an error in the end does not depend on the limit (`Honest.hasErrors_foldl_add`).
-/

namespace ResourceSafety.Engine

variable {e : Engine}

/-! ## One more diagnostic -/

/-- The engine with a diagnostic taken up. -/
def taken (e : Engine) (d : Diagnostic) : Engine :=
  { e with held := e.held ++ [promote e.config d] }

/-- The engine with its list cut off. -/
def cutOff (e : Engine) : Engine :=
  { e with truncated := true, held := e.held ++ [limitNotice e.config.maxErrors] }

/-- The diagnostic is dropped or taken up, and in the second case the list is cut off if the
limit is reached. -/
theorem add_cases (e : Engine) (d : Diagnostic) :
    (e.drops d = true ∧ e.add d = e) ∨
      (e.drops d = false ∧ (e.taken d).atLimit = false ∧ e.add d = e.taken d) ∨
      (e.drops d = false ∧ (e.taken d).atLimit = true ∧ e.add d = (e.taken d).cutOff) := by
  unfold add
  cases e.drops d with
  | true => exact .inl ⟨rfl, rfl⟩
  | false =>
    cases full : (e.taken d).atLimit with
    | false => exact .inr (.inl ⟨rfl, rfl, if_neg (ne_true_of_eq_false full)⟩)
    | true => exact .inr (.inr ⟨rfl, rfl, if_pos full⟩)

@[simp] theorem config_add (e : Engine) (d : Diagnostic) : (e.add d).config = e.config := by
  obtain ⟨-, same⟩ | ⟨-, -, same⟩ | ⟨-, -, same⟩ := add_cases e d
  · rw [same]
  · rw [same]
    rfl
  · rw [same]
    rfl

/-! ## Errors -/

/-- The diagnostic is not ignored and counts as an error. -/
def counts (config : EngineConfig) (d : Diagnostic) : Bool :=
  !config.ignore.contains d.code && (promote config d).level == .error

theorem hasErrors_taken (e : Engine) (d : Diagnostic) :
    (e.taken d).hasErrors = (e.hasErrors || (promote e.config d).level == .error) := by
  simp [hasErrors, taken]

/-- The notice at the end of a list that was cut off is an error. -/
theorem hasErrors_cutOff (e : Engine) : e.cutOff.hasErrors = true := by
  simp [hasErrors, cutOff, limitNotice]

/-- An error is held where the limit is reached, for the limit is positive. -/
theorem hasErrors_of_atLimit (full : e.atLimit = true) : e.hasErrors = true := by
  rw [atLimit, Bool.and_eq_true, decide_eq_true_eq, decide_eq_true_eq, errorCount] at full
  obtain ⟨positive, reached⟩ := full
  have positive : 0 < e.config.maxErrors.toInt := Int64.lt_iff_toInt_lt.mp positive
  have some : 0 < (e.withLevel .error).length := by omega
  obtain ⟨d, mem⟩ := List.exists_mem_of_length_pos some
  obtain ⟨held, level⟩ := List.mem_filter.mp mem
  exact List.any_eq_true.mpr ⟨d, held, level⟩

/-- A list that was cut off holds an error. -/
def Honest (e : Engine) : Prop := e.truncated = true → e.hasErrors = true

theorem honest_empty (config : EngineConfig) : (empty config).Honest := fun cut => by cases cut

/-- A diagnostic that is dropped adds no error that is not held already. -/
theorem Honest.hasErrors_of_drops (honest : e.Honest) {d : Diagnostic} (drops : e.drops d = true) :
    e.hasErrors = (e.hasErrors || counts e.config d) := by
  obtain cut | ignored := Bool.or_eq_true_iff.mp drops
  · rw [honest cut, Bool.true_or]
  · rw [counts, ignored, Bool.not_true, Bool.false_and, Bool.or_false]

theorem counts_of_not_drops {d : Diagnostic} (kept : e.drops d = false) :
    counts e.config d = ((promote e.config d).level == .error) := by
  rw [counts, (Bool.or_eq_false_iff.mp kept).2, Bool.not_false, Bool.true_and]

theorem Honest.hasErrors_add (honest : e.Honest) (d : Diagnostic) :
    (e.add d).hasErrors = (e.hasErrors || counts e.config d) := by
  obtain ⟨drops, same⟩ | ⟨kept, -, same⟩ | ⟨kept, full, same⟩ := add_cases e d
  · rw [same]
    exact honest.hasErrors_of_drops drops
  · rw [same, hasErrors_taken, counts_of_not_drops kept]
  · rw [same, hasErrors_cutOff, counts_of_not_drops kept, ← hasErrors_taken]
    exact (hasErrors_of_atLimit full).symm

theorem Honest.add (honest : e.Honest) (d : Diagnostic) : (e.add d).Honest := by
  intro cut
  obtain ⟨-, same⟩ | ⟨kept, -, same⟩ | ⟨-, -, same⟩ := add_cases e d
  · rw [same] at cut ⊢
    exact honest cut
  · rw [same] at cut
    have going : e.truncated = false := (Bool.or_eq_false_iff.mp kept).1
    exact absurd cut (ne_true_of_eq_false going)
  · rw [same]
    exact hasErrors_cutOff _

/-- Diagnostics that come one after the other leave an error if one of them counts as one. -/
theorem Honest.hasErrors_foldl_add (honest : e.Honest) (ds : List Diagnostic) :
    (ds.foldl Engine.add e).hasErrors = (e.hasErrors || ds.any (counts e.config)) := by
  induction ds generalizing e with
  | nil => simp
  | cons d ds ih =>
    rw [List.foldl_cons, ih (honest.add d), honest.hasErrors_add, config_add, List.any_cons,
      Bool.or_assoc]

/-- Order does not matter for errors. -/
theorem hasErrors_sort (e : Engine) : e.sort.hasErrors = e.hasErrors :=
  (List.mergeSort_perm e.held _).any_eq

end ResourceSafety.Engine
