import ResourceSafety.Proofs.Logic.Understanding

/-!
# What a model shows

A model lists the symbols of a session and its applications by their texts.  Beside each stands the
number that its word has in a valuation of the circuit.  The SAT solver says nothing about variables
without a clause, which count as false.  So all numbers in a model come from one valuation that the
circuit admits (`Circuit.settled`).

No text stands for two words.  Texts of plain terms tell the terms apart, and a term has one word
(`BitBlaster.Sound.lookup_model`).
-/

namespace ResourceSafety.Logic

/-! ## Tables of values -/

namespace Model

theorem lookup_replace (m : Model) (name value other : String) :
    (m.map fun e => if e.1 == name then (name, value) else e).lookup other =
      if other = name then (m.lookup other).map fun _ => value else m.lookup other := by
  induction m with
  | nil => simp
  | cons e m ih =>
      obtain ⟨key, old⟩ := e
      have entry : (if key == name then (name, value) else (key, old)) =
          (key, if key == name then value else old) := by
        split
        next here => rw [beq_iff_eq.mp here]
        next => rfl
      rw [List.map_cons, entry, List.lookup_cons, List.lookup_cons, ih]
      by_cases asked : other = key
      · subst asked
        by_cases here : other = name <;> simp [here]
      · rw [beq_eq_false_iff_ne.mpr asked]

theorem lookup_insert_self (m : Model) (name value : String) :
    (m.insert name value).lookup name = some value := by
  unfold insert
  split
  next listed =>
    obtain ⟨e, he, here⟩ := List.any_eq_true.mp listed
    rw [lookup_replace, if_pos rfl]
    cases found : m.lookup name with
    | some old => rfl
    | none =>
        have other := List.lookup_eq_none_iff.mp found e he
        exact absurd (beq_iff_eq.mp here).symm (bne_iff_ne.mp other)
  next unlisted =>
    have none : m.lookup name = none := by
      refine List.lookup_eq_none_iff.mpr fun e he => bne_iff_ne.mpr ?_
      rintro rfl
      exact unlisted (List.any_eq_true.mpr ⟨e, he, beq_self_eq_true _⟩)
    rw [List.lookup_append, none, List.lookup_cons, beq_self_eq_true]
    rfl

theorem lookup_insert_ne (m : Model) {name other : String} (ne : other ≠ name) (value : String) :
    (m.insert name value).lookup other = m.lookup other := by
  unfold insert
  split
  next => rw [lookup_replace, if_neg ne]
  next =>
    rw [List.lookup_append, List.lookup_cons, beq_eq_false_iff_ne.mpr ne]
    exact Option.or_none

theorem fst_of_mem_insert {m : Model} {name value : String} {e : String × String}
    (h : e ∈ m.insert name value) : e.1 = name ∨ ∃ e' ∈ m, e'.1 = e.1 := by
  unfold insert at h
  split at h
  next =>
    obtain ⟨e', he', rfl⟩ := List.mem_map.mp h
    split
    · exact .inl rfl
    · exact .inr ⟨e', he', rfl⟩
  next =>
    obtain h | h := List.mem_append.mp h
    · exact .inr ⟨e, h, rfl⟩
    · exact .inl (congrArg Prod.fst (List.mem_singleton.mp h))

/-- A name that is entered has the value entered for it, when that is always the same. -/
theorem lookup_foldl_insert (entries : List (String × String)) {name value : String}
    (same : ∀ e ∈ entries, e.1 = name → e.2 = value) (m : Model)
    (listed : m.lookup name = some value ∨ ∃ e ∈ entries, e.1 = name) :
    (entries.foldl (fun m e => m.insert e.1 e.2) m).lookup name = some value := by
  induction entries generalizing m with
  | nil => exact listed.resolve_right fun ⟨_, h, _⟩ => List.not_mem_nil h
  | cons e es ih =>
      obtain ⟨here, later⟩ := List.forall_mem_cons.mp same
      refine ih later _ ?_
      by_cases first : e.1 = name
      · left
        show (m.insert e.1 e.2).lookup name = _
        rw [first, lookup_insert_self, here first]
      · rw [lookup_insert_ne m (Ne.symm first)]
        refine listed.imp_right fun ⟨e', he', eq⟩ => ⟨e', ?_, eq⟩
        exact (List.mem_cons.mp he').resolve_left fun h => first (h ▸ eq)

theorem fst_of_mem_foldl_insert (entries : List (String × String)) (m : Model)
    {e : String × String} (h : e ∈ entries.foldl (fun m e => m.insert e.1 e.2) m) :
    (∃ e' ∈ m, e'.1 = e.1) ∨ ∃ e' ∈ entries, e'.1 = e.1 := by
  induction entries generalizing m with
  | nil => exact .inl ⟨e, h, rfl⟩
  | cons e₀ es ih =>
      obtain ⟨e', he', eq⟩ | ⟨e', he', eq⟩ := ih _ h
      · obtain first | ⟨e'', he'', eq'⟩ := fst_of_mem_insert he'
        · exact .inr ⟨e₀, List.mem_cons_self, first.symm.trans eq⟩
        · exact .inl ⟨e'', he'', eq'.trans eq⟩
      · exact .inr ⟨e', List.mem_cons_of_mem e₀ he', eq⟩

end Model

/-! ## The model of a valuation -/

namespace BitBlaster

variable {b : BitBlaster} {v : Valuation}

/-- The texts of the symbols and the applications with their words. -/
def named (b : BitBlaster) : List (String × Bits) :=
  b.constants ++ b.applications.map fun a => (a.key, a.result)

theorem model_eq (b : BitBlaster) (v : Valuation) :
    b.model v = (b.named.map fun e => (e.1, toString (b.circuit.bitsValue v e.2))).foldl
      (fun m e => Model.insert m e.1 e.2) [] := by
  unfold model named
  rw [List.map_append, List.map_map]
  rfl

/-- No symbol is declared twice. -/
def Distinct (b : BitBlaster) : Prop := ∀ c ∈ b.constants, b.constants.lookup c.1 = some c.2

/-- An entry of a model is about a plain term. -/
theorem Sound.exists_of_mem_named (sound : b.Sound) (distinct : b.Distinct) {e : String × Bits}
    (he : e ∈ b.named) : ∃ t : Term, t.Plain ∧ t.render = e.1 ∧ b.word? t = some e.2 := by
  obtain he | he := List.mem_append.mp he
  · exact ⟨.symbol e.1, .symbol (sound.names e he), rfl, distinct e he⟩
  · obtain ⟨a, ha, rfl⟩ := List.mem_map.mp he
    obtain ⟨args, stands⟩ := sound.terms a ha
    refine ⟨_, stands.plain, stands.key.symm, ?_⟩
    rw [word?, ← stands.key, sound.keys a ha]
    rfl

theorem Sound.positive_of_mem_named (sound : b.Sound) {e : String × Bits} (he : e ∈ b.named) :
    e.2.Positive := by
  obtain he | he := List.mem_append.mp he
  · exact (sound.words e he).2
  · obtain ⟨a, ha, rfl⟩ := List.mem_map.mp he
    exact (sound.results a ha).2

theorem mem_named_of_lists {t : Term} (lists : b.Lists t) {w : Bits} (word : b.word? t = some w) :
    (t.render, w) ∈ b.named := by
  cases t with
  | literal n => exact lists.elim
  | symbol name =>
      obtain ⟨before, after, split, _⟩ := List.lookup_eq_some_iff.mp word
      exact List.mem_append_left _ (by simp [split, Term.render])
  | apply f args =>
      obtain ⟨a, found, rfl⟩ := Option.map_eq_some_iff.mp word
      have text := List.find?_some found
      refine List.mem_append_right _ (List.mem_map.mpr ⟨a, List.mem_of_find?_eq_some found, ?_⟩)
      rw [beq_iff_eq.mp text]

/-- Beside a term that is listed stands the value of its word. -/
theorem Sound.lookup_model (sound : b.Sound) (distinct : b.Distinct) (hv : b.circuit.Admits v)
    {t : Term} (lists : b.Lists t) {w : Bits} (word : b.word? t = some w) :
    (b.model v).lookup t.render = some (toString (w.value (b.circuit.settled v))) := by
  have listed := mem_named_of_lists lists word
  rw [model_eq]
  refine Model.lookup_foldl_insert _ (List.forall_mem_map.mpr fun e he text => ?_) []
    (.inr ⟨_, List.mem_map_of_mem listed, rfl⟩)
  obtain ⟨u, plain, render, word'⟩ := sound.exists_of_mem_named distinct he
  obtain rfl : u = t := Term.render_injective plain lists.word.1 (render.trans text)
  obtain rfl : w = e.2 := Option.some.inj (word.symm.trans word')
  exact congrArg toString (Circuit.bitsValue_eq sound.circuit hv (sound.positive_of_mem_named he))

/-- Nothing else stands in a model. -/
theorem exists_of_mem_model {e : String × String} (he : e ∈ b.model v) :
    ∃ e' ∈ b.named, e'.1 = e.1 := by
  rw [model_eq] at he
  obtain ⟨e', he', _⟩ | ⟨e', he', same⟩ := Model.fst_of_mem_foldl_insert _ [] he
  · exact absurd he' List.not_mem_nil
  · obtain ⟨e'', he'', rfl⟩ := List.mem_map.mp he'
    exact ⟨e'', he'', same⟩

end BitBlaster

end ResourceSafety.Logic
