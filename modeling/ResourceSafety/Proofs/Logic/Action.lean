import ResourceSafety.Logic.Solver

/-!
# Requests, step by step

An `Action` gives a result and the state after it, also when it is refused.  The
lemmas here say what `Action.perform` does to each way of putting actions
together, so proofs about requests never open the monad.  Where only runs without
a fault matter, `Action.bind_ok` takes such a run apart.
-/

namespace ResourceSafety.Logic.Action

variable {σ α β : Type} {s : σ}

@[simp] theorem perform_pure (a : α) : perform (pure a : Action σ α) s = (.ok a, s) := rfl

@[simp] theorem perform_throw (fault : Fault) :
    perform (throw fault : Action σ α) s = (.error fault, s) := rfl

@[simp] theorem perform_get : perform (get : Action σ σ) s = (.ok s, s) := rfl

@[simp] theorem perform_set (t : σ) : perform (set t : Action σ PUnit) s = (.ok ⟨⟩, t) := rfl

@[simp] theorem perform_modify (f : σ → σ) :
    perform (modify f : Action σ PUnit) s = (.ok ⟨⟩, f s) := rfl

@[simp] theorem perform_ofExcept (r : Except Fault α) :
    perform (MonadExcept.ofExcept r : Action σ α) s = (r, s) := by
  cases r <;> rfl

theorem perform_bind (a : Action σ α) (f : α → Action σ β) :
    perform (a >>= f) s =
      match perform a s with
      | (.ok x, t) => perform (f x) t
      | (.error fault, t) => (.error fault, t) := by
  show ExceptT.bindCont f (a s).1 (a s).2 = match a s with
    | (.ok x, t) => perform (f x) t
    | (.error fault, t) => (.error fault, t)
  cases a s with
  | mk r t => cases r <;> rfl

/-- The first action went well, and the others follow. -/
theorem perform_bind_ok {a : Action σ α} {f : α → Action σ β} {x : α} {t : σ}
    (h : perform a s = (.ok x, t)) : perform (a >>= f) s = perform (f x) t := by
  rw [perform_bind, h]

/-- The first action was refused. -/
theorem perform_bind_error {a : Action σ α} {f : α → Action σ β} {fault : Fault} {t : σ}
    (h : perform a s = (.error fault, t)) : perform (a >>= f) s = (.error fault, t) := by
  rw [perform_bind, h]

/-- A run of two actions without a fault is one of the first and one of the second. -/
theorem bind_ok {a : Action σ α} {f : α → Action σ β} {y : β} {u : σ}
    (h : perform (a >>= f) s = (.ok y, u)) :
    ∃ x t, perform a s = (.ok x, t) ∧ perform (f x) t = (.ok y, u) := by
  rw [perform_bind] at h
  split at h
  next x t first => exact ⟨x, t, first, h⟩
  next => cases h

theorem perform_get_bind (f : σ → Action σ β) : perform (get >>= f) s = perform (f s) s := rfl

theorem perform_set_bind (t : σ) (f : PUnit → Action σ β) :
    perform (set t >>= f) s = perform (f ⟨⟩) t := rfl

theorem perform_modify_bind (g : σ → σ) (f : PUnit → Action σ β) :
    perform (modify g >>= f) s = perform (f ⟨⟩) (g s) := rfl

/-- An answer that is there is passed on. -/
theorem perform_answer_bind {r : Except Fault α} {f : α → Action σ β} {x : α} (h : r = .ok x) :
    perform (MonadExcept.ofExcept r >>= f) s = perform (f x) s := by
  rw [perform_bind, perform_ofExcept, h]

/-- An answer that is a fault ends the run. -/
theorem perform_fault_bind {r : Except Fault α} {f : α → Action σ β} {fault : Fault}
    (h : r = .error fault) : perform (MonadExcept.ofExcept r >>= f) s = (.error fault, s) := by
  rw [perform_bind, perform_ofExcept, h]

/-- A run without a fault that begins with an answer. -/
theorem ofExcept_bind_ok {r : Except Fault α} {f : α → Action σ β} {y : β} {u : σ}
    (h : perform (MonadExcept.ofExcept r >>= f) s = (.ok y, u)) :
    ∃ x, r = .ok x ∧ perform (f x) s = (.ok y, u) := by
  obtain ⟨x, t, first, rest⟩ := bind_ok h
  rw [perform_ofExcept] at first
  obtain ⟨rfl, rfl⟩ := Prod.mk.inj first
  exact ⟨x, rfl, rest⟩

theorem perform_tryCatch (a : Action σ α) (f : Fault → Action σ α) :
    perform (tryCatch a f) s =
      match perform a s with
      | (.ok x, t) => (.ok x, t)
      | (.error fault, t) => perform (f fault) t := by
  unfold perform ExceptT.run StateT.run
  simp only [tryCatch, tryCatchThe, MonadExceptOf.tryCatch, ExceptT.tryCatch, ExceptT.mk, bind,
    StateT.bind]
  cases a s with
  | mk r t => cases r <;> rfl

theorem map_ok {a : Action σ α} {f : α → β} {y : β} {t : σ} (h : perform (f <$> a) s = (.ok y, t)) :
    ∃ x, perform a s = (.ok x, t) ∧ f x = y := by
  rw [map_eq_pure_bind] at h
  obtain ⟨x, t', first, rest⟩ := bind_ok h
  cases rest
  exact ⟨x, first, rfl⟩

/-! ## Actions that keep a relation -/

/-- Every state an action leads to is related to the one it began in. -/
def Moves (R : σ → σ → Prop) (a : Action σ α) : Prop := ∀ s, R s (a.perform s).2

theorem Moves.imp {R S : σ → σ → Prop} {a : Action σ α} (h : Moves R a)
    (weaker : ∀ s t, R s t → S s t) : Moves S a := fun s => weaker s _ (h s)

/-- Two actions one after the other; a fault of the first is the end. -/
theorem Moves.seq {R S T : σ → σ → Prop} {a : Action σ α} {k : α → Action σ β}
    (ends : ∀ {s t}, R s t → T s t) (both : ∀ {s t u}, R s t → S t u → T s u) (first : Moves R a)
    (next : ∀ x, Moves S (k x)) : Moves T (a >>= k) := by
  intro s
  have moved := first s
  rw [perform_bind]
  revert moved
  rcases a.perform s with ⟨fault | x, t⟩ <;> intro moved
  · exact ends moved
  · exact both moved (next x t)

theorem Moves.bind {R : σ → σ → Prop} {a : Action σ α} {k : α → Action σ β}
    (trans : ∀ {s t u}, R s t → R t u → R s u) (first : Moves R a)
    (next : ∀ x, Moves R (k x)) : Moves R (a >>= k) := first.seq id trans next

/-- An action and what is done about a fault of it. -/
theorem Moves.tryCatch {R S T : σ → σ → Prop} {a : Action σ α} {f : Fault → Action σ α}
    (ends : ∀ {s t}, R s t → T s t) (both : ∀ {s t u}, R s t → S t u → T s u) (first : Moves R a)
    (handled : ∀ fault, Moves S (f fault)) : Moves T (tryCatch a f) := by
  intro s
  have moved := first s
  rw [perform_tryCatch]
  revert moved
  rcases a.perform s with ⟨fault | x, t⟩ <;> intro moved
  · exact both moved (handled fault t)
  · exact ends moved

end ResourceSafety.Logic.Action
