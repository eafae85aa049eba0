import ResourceSafety.Proofs.Logic.Words

/-!
# Declarations

A symbol is declared with a word of its own.  The variables of the word are new, so the symbol can
have any value, and a session grows by a declaration as it does by an application
(`BitBlaster.grows_withConstant`).  A second declaration changes nothing.
-/

namespace ResourceSafety.Logic.BitBlaster

open Logic.Action

variable {b : BitBlaster} {name : String} {arity : Nat}

theorem perform_requireOpen (opened : b.closed = false) : requireOpen.perform b = (.ok (), b) := by
  unfold requireOpen
  rw [perform_bind_ok perform_get, opened]
  rfl

/-- The session with a further symbol. -/
def withConstant (b : BitBlaster) (name : String) : BitBlaster :=
  { b with
    circuit := { b.circuit with nextVar := b.circuit.nextVar + width }
    constants := b.constants ++ [(name, Bits.after b.circuit.nextVar)] }

/-- The session with a further function. -/
def withFunction (b : BitBlaster) (name : String) (arity : Nat) : BitBlaster :=
  { b with functions := b.functions ++ [(name, arity)] }

theorem perform_declareConstant (opened : b.closed = false) (name : String) :
    (declareConstant name).perform b =
      (.ok (), if (b.constants.lookup name).isSome then b else b.withConstant name) := by
  unfold declareConstant
  rw [perform_bind_ok (perform_requireOpen opened), perform_bind_ok perform_get]
  cases b.constants.lookup name with
  | some w => rfl
  | none => rfl

theorem perform_declareFunction (opened : b.closed = false) (name : String) (arity : Nat) :
    (declareFunction name arity).perform b =
      match b.functions.lookup name with
      | some previous =>
        (if previous = arity then .ok () else .error (.redeclared name arity previous), b)
      | none => (.ok (), b.withFunction name arity) := by
  unfold declareFunction
  rw [perform_bind_ok (perform_requireOpen opened), perform_bind_ok perform_get]
  cases b.functions.lookup name with
  | some previous =>
      dsimp only
      by_cases same : previous = arity
      · rw [if_neg (not_not.mpr same), if_pos same]
        rfl
      · rw [if_pos same, if_neg same]
        rfl
  | none => rfl

/-- An interpretation extends to a further symbol: its word gets the value of the symbol. -/
theorem grows_withConstant (sound : b.Sound) (name : String) : b.Grows (b.withConstant name) := by
  refine { Grows.refl b with
    constants := List.prefix_append _ _
    nextVar := Nat.le_add_right _ _
    carries := fun i v hv agrees => ?_ }
  obtain ⟨u, agree, value⟩ := Bits.exists_value_after v b.circuit.nextVar (i.symbol name)
  have agrees' := sound.agrees_congr agree agrees
  refine ⟨u, agree, sound.circuit.admits_of_agree sound.circuit.used agree hv, fun other w h => ?_,
    agrees'.applications⟩
  have found : (b.constants ++ [(name, Bits.after b.circuit.nextVar)]).lookup other = some w := h
  rw [List.lookup_append, Option.or_eq_some_iff] at found
  obtain old | ⟨_, new⟩ := found
  · exact agrees'.constants other w old
  · rw [List.lookup_cons] at new
    split at new
    next same =>
      obtain rfl := Option.some.inj new
      rw [beq_iff_eq.mp same]
      exact value
    next => cases new

theorem sound_withConstant (sound : b.Sound) (proper : isName name = true) :
    (b.withConstant name).Sound where
  circuit := sound.circuit.addVars width
  names := List.forall_mem_append.mpr ⟨sound.names, List.forall_mem_singleton.mpr proper⟩
  words := List.forall_mem_append.mpr
    ⟨fun c hc => ⟨(sound.words c hc).1.mono (Nat.le_add_right _ _), (sound.words c hc).2⟩,
      List.forall_mem_singleton.mpr ⟨Bits.within_after _, Bits.positive_after _⟩⟩
  functions := sound.functions
  arities := sound.arities
  terms a ha := (sound.terms a ha).imp fun _ stands => stands.grows (grows_withConstant sound name)
  keys := sound.keys
  results a ha := ⟨(sound.results a ha).1.mono (Nat.le_add_right _ _), (sound.results a ha).2⟩
  congruent := sound.congruent

theorem grows_withFunction (b : BitBlaster) (name : String) (arity : Nat) :
    b.Grows (b.withFunction name arity) :=
  { Grows.refl b with
    functions := List.prefix_append _ _
    carries := fun _ v hv agrees => ⟨v, .refl _ v, hv, agrees.constants, agrees.applications⟩ }

theorem sound_withFunction (sound : b.Sound) (proper : isName name = true) (positive : 0 < arity) :
    (b.withFunction name arity).Sound where
  circuit := sound.circuit
  names := sound.names
  words := sound.words
  functions := List.forall_mem_append.mpr
    ⟨sound.functions, List.forall_mem_singleton.mpr ⟨proper, positive⟩⟩
  arities a ha := lookup_mono (List.prefix_append _ _) (sound.arities a ha)
  terms a ha := (sound.terms a ha).imp fun _ stands =>
    stands.grows (grows_withFunction b name arity)
  keys := sound.keys
  results := sound.results
  congruent := sound.congruent

/-- Declaring a symbol makes a session grow. -/
theorem declareConstant_spec (sound : b.Sound) (opened : b.closed = false)
    (proper : isName name = true) :
    ((declareConstant name).perform b).2.Sound ∧ b.Grows ((declareConstant name).perform b).2 := by
  rw [perform_declareConstant opened]
  dsimp only
  split
  next => exact ⟨sound, .refl b⟩
  next => exact ⟨sound_withConstant sound proper, grows_withConstant sound name⟩

/-- Declaring a function with arguments makes a session grow. -/
theorem declareFunction_spec (sound : b.Sound) (opened : b.closed = false)
    (proper : isName name = true) (positive : 0 < arity) :
    ((declareFunction name arity).perform b).2.Sound ∧
      b.Grows ((declareFunction name arity).perform b).2 := by
  rw [perform_declareFunction opened]
  cases b.functions.lookup name with
  | some previous => exact ⟨sound, .refl b⟩
  | none => exact ⟨sound_withFunction sound proper positive, grows_withFunction b name arity⟩

end ResourceSafety.Logic.BitBlaster
