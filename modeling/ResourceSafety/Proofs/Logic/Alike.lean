import ResourceSafety.Proofs.Logic.Action

/-!
# Runs that go alike

Two runs go *alike* when both are refused, or neither is and what they end with is related: the
answers by one relation, the states by another.  There is a rule for each way of putting actions
together, so two runs are compared without opening either.
-/

namespace ResourceSafety.Logic.Action

variable {σ τ α β γ δ : Type} {Q : α → β → Prop} {Q' : γ → δ → Prop} {R R' : σ → τ → Prop}
  {a : Action σ α} {b : Action τ β} {k : α → Action σ γ} {l : β → Action τ δ} {s : σ} {t : τ}
  {x : α} {y : β}

/-- Both runs are refused, or both end with related answers in related states. -/
def Alike (Q : α → β → Prop) (R : σ → τ → Prop) (a : Action σ α) (b : Action τ β) (s : σ) (t : τ) :
    Prop :=
  (∃ fault fault' s' t', a.perform s = (.error fault, s') ∧ b.perform t = (.error fault', t')) ∨
  ∃ x y s' t', a.perform s = (.ok x, s') ∧ b.perform t = (.ok y, t') ∧ Q x y ∧ R s' t'

namespace Alike

theorem pure (answers : Q x y) (states : R s t) : Alike Q R (pure x) (pure y) s t :=
  .inr ⟨x, y, s, t, rfl, rfl, answers, states⟩

theorem throw (fault fault' : Fault) :
    Alike Q R (throw fault : Action σ α) (throw fault' : Action τ β) s t :=
  .inl ⟨fault, fault', s, t, rfl, rfl⟩

theorem bind (h : Alike Q R a b s t)
    (next : ∀ x y s' t', Q x y → R s' t' → Alike Q' R' (k x) (l y) s' t') :
    Alike Q' R' (a >>= k) (b >>= l) s t := by
  obtain ⟨fault, fault', s', t', left, right⟩ | ⟨x, y, s', t', left, right, answers, states⟩ := h
  · exact .inl ⟨_, _, _, _, perform_bind_error left, perform_bind_error right⟩
  · have after := next x y s' t' answers states
    rw [Alike, ← perform_bind_ok (f := k) left, ← perform_bind_ok (f := l) right] at after
    exact after

theorem get_bind {k : σ → Action σ γ} {l : τ → Action τ δ} (next : Alike Q' R' (k s) (l t) s t) :
    Alike Q' R' (get >>= k) (get >>= l) s t := next

theorem set_bind {s' : σ} {t' : τ} {k : PUnit → Action σ γ} {l : PUnit → Action τ δ}
    (next : Alike Q' R' (k ⟨⟩) (l ⟨⟩) s' t') : Alike Q' R' (set s' >>= k) (set t' >>= l) s t := next

theorem modify_bind {f : σ → σ} {g : τ → τ} {k : PUnit → Action σ γ} {l : PUnit → Action τ δ}
    (next : Alike Q' R' (k ⟨⟩) (l ⟨⟩) (f s) (g t)) :
    Alike Q' R' (modify f >>= k) (modify g >>= l) s t := next

theorem modify {f : σ → σ} {g : τ → τ} (states : R (f s) (g t)) :
    Alike (fun _ _ => True) R (modify f : Action σ PUnit) (modify g : Action τ PUnit) s t :=
  .inr ⟨_, _, _, _, rfl, rfl, trivial, states⟩

theorem answer (states : R s t) (r : Except Fault α) :
    Alike Eq R (MonadExcept.ofExcept r : Action σ α) (MonadExcept.ofExcept r : Action τ α) s t := by
  cases r with
  | error fault => exact .throw _ _
  | ok x => exact .pure rfl states

/-- Both go on with the same answer, or are refused without it. -/
theorem answer_bind {r : Except Fault α} {k : α → Action σ γ} {l : α → Action τ δ}
    (next : ∀ x, r = .ok x → Alike Q' R' (k x) (l x) s t) :
    Alike Q' R' (MonadExcept.ofExcept r >>= k) (MonadExcept.ofExcept r >>= l) s t := by
  cases r with
  | error fault => exact .inl ⟨_, _, _, _, perform_fault_bind rfl, perform_fault_bind rfl⟩
  | ok x =>
    have after := next x rfl
    rw [Alike, ← perform_answer_bind (f := k) (s := s) rfl,
      ← perform_answer_bind (f := l) (s := t) rfl] at after
    exact after

/-- Both are answered. -/
theorem answers_bind {p : α} {q : β} (next : Alike Q' R' (k p) (l q) s t) :
    Alike Q' R' (MonadExcept.ofExcept (.ok p) >>= k) (MonadExcept.ofExcept (.ok q) >>= l) s t :=
  next

theorem mono (h : Alike Q R a b s t) {Q' : α → β → Prop} (answers : ∀ x y, Q x y → Q' x y)
    (states : ∀ s t, R s t → R' s t) : Alike Q' R' a b s t :=
  h.imp_right fun ⟨x, y, s', t', left, right, hQ, hR⟩ =>
    ⟨x, y, s', t', left, right, answers x y hQ, states s' t' hR⟩

theorem discard (h : Alike Q R a b s t) :
    Alike (fun _ _ => True) R (discard a) (discard b) s t := by
  show Alike _ R ((fun _ => PUnit.unit) <$> a) ((fun _ => PUnit.unit) <$> b) s t
  rw [map_eq_pure_bind, map_eq_pure_bind]
  exact h.bind fun _ _ _ _ _ states => .pure trivial states

/-- A fault that is only renamed. -/
theorem rethrow (h : Alike Q R a b s t) (f g : Fault → Fault) :
    Alike Q R (tryCatch a fun fault => MonadExcept.throw (f fault))
      (tryCatch b fun fault => MonadExcept.throw (g fault))
      s t := by
  obtain ⟨fault, fault', s', t', left, right⟩ | ⟨x, y, s', t', left, right, states⟩ := h
  · refine .inl ⟨f fault, g fault', s', t', ?_, ?_⟩
    · rw [perform_tryCatch, left]
      rfl
    · rw [perform_tryCatch, right]
      rfl
  · refine .inr ⟨x, y, s', t', ?_, ?_, states⟩
    · rw [perform_tryCatch, left]
    · rw [perform_tryCatch, right]

end Alike

end ResourceSafety.Logic.Action
