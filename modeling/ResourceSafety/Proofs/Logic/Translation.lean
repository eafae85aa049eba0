import ResourceSafety.Proofs.Logic.Words

/-!
# Terms and formulas as words and literals

Translating a term or a formula makes a sound session grow, even when it is refused half-way.  A
term gets the word of its reading (`BitBlaster.runs_term`), and the literal of a formula is worth
what its reading is (`BitBlaster.runs_formula`).
-/

namespace ResourceSafety.Logic.BitBlaster

variable {b b' : BitBlaster}

/-! ## Terms -/

theorem mem_functions_of_lookup {fs : List (String × Nat)} {f : String} {n : Nat}
    (h : fs.lookup f = some n) : (f, n) ∈ fs := by
  obtain ⟨before, after, split, _⟩ := List.lookup_eq_some_iff.mp h
  simp [split]

theorem Sound.plain_apply (sound : b.Sound) {f : String} {args : List Term}
    (arity : b.functions.lookup f = some args.length) (each : ∀ u ∈ args, u.Plain) :
    (Term.apply f args).Plain := by
  obtain ⟨name, positive⟩ := sound.functions _ (mem_functions_of_lookup arity)
  exact .apply (isWord_of_isName name) (List.length_pos_iff.mp positive) each

theorem length_render_apply {f : String} {args : List Term} {t : Term} (ht : t ∈ args) :
    t.render.length < (Term.apply f args).render.length := by
  have inArgs : ∀ ts : List Term, t ∈ ts → t.render.length < (Term.renderArgs ts).length := by
    intro ts
    induction ts with
    | nil => exact fun h => nomatch h
    | cons u us ih =>
        intro h
        rw [Term.renderArgs, String.length_append, String.length_append]
        obtain rfl | h := List.mem_cons.mp h
        · have space : " ".length = 1 := rfl
          omega
        · have := ih h
          omega
  cases args with
  | nil => cases ht
  | cons u us =>
      have := inArgs (u :: us) ht
      rw [Term.render, String.length_append, String.length_append, String.length_append]
      omega

/-- The terms are read as plain terms with the given words, and new applications have no longer
texts than the terms. -/
structure Translates (b : BitBlaster) (ts : List Term) (ws : List Bits) (b' : BitBlaster) :
    Prop where
  plain : ∀ t ∈ ts, t.reading.Plain
  words : (ts.map Term.reading).map b'.word? = ws.map some
  texts : ∀ a ∈ b'.applications, a ∈ b.applications ∨ ∃ t ∈ ts, a.key.length ≤ t.render.length

theorem Translates.single {t : Term} {w : Bits} (plain : t.reading.Plain)
    (word : b'.word? t.reading = some w)
    (texts : ∀ a ∈ b'.applications, a ∈ b.applications ∨ a.key.length ≤ t.render.length) :
    b.Translates [t] [w] b' where
  plain := List.forall_mem_singleton.mpr plain
  words := congrArg (· :: []) word
  texts a ha := (texts a ha).imp_right fun le => ⟨t, List.mem_cons_self, le⟩

theorem runs_terms {ts : List Term}
    (each : ∀ t ∈ ts, ∀ b : BitBlaster, b.Sound → b.Runs (term t) (fun w => b.Translates [t] [w]))
    (sound : b.Sound) : b.Runs (terms ts) (b.Translates ts) := by
  induction ts generalizing b with
  | nil => exact .pure sound ⟨List.forall_mem_nil _, rfl, fun a ha => .inl ha⟩
  | cons t ts ih =>
      obtain ⟨here, others⟩ := List.forall_mem_cons.mp each
      rw [terms]
      refine (here b sound).bind fun w b₁ sound₁ grows₁ first => ?_
      refine (ih others sound₁).bind fun ws b₂ sound₂ grows₂ rest => ?_
      refine .pure sound₂ ⟨?_, ?_, ?_⟩
      · exact List.forall_mem_cons.mpr ⟨first.plain t List.mem_cons_self, rest.plain⟩
      · have word := (grows₂.words first.words)
        rw [List.map_cons, List.map_cons, List.map_cons, rest.words]
        exact congrArg (· :: _) (List.cons.inj word).1
      · intro a ha
        obtain old | ⟨u, hu, le⟩ := rest.texts a ha
        · obtain old | ⟨u, hu, le⟩ := first.texts a old
          · exact .inl old
          · exact .inr ⟨u, List.mem_cons.mpr (.inl (List.mem_singleton.mp hu)), le⟩
        · exact .inr ⟨u, List.mem_cons_of_mem t hu, le⟩

/-- A term whose text is known gets the word it is known with, for it is taken for the application
that the text is known from. -/
theorem Sound.translates_known (sound : b.Sound) {f : String} {args : List Term} {a : Application}
    (found : b.applications.find? (·.key == (Term.apply f args).render) = some a) :
    b.Translates [.apply f args] [a.result] b := by
  have ha := List.mem_of_find?_eq_some found
  obtain ⟨others, stands⟩ := sound.terms a ha
  have text := List.find?_some found
  have reading : (Term.apply f args).reading = .apply a.function others :=
    Term.reading_eq stands.plain (stands.key.symm.trans (beq_iff_eq.mp text))
  refine .single ?_ ?_ fun a ha => .inl ha
  · exact reading ▸ stands.plain
  · rw [reading, word?, ← stands.key, sound.keys a ha]
    rfl

/-- No argument has the text of the whole application, for texts of arguments are shorter. -/
theorem Translates.unseen {f : String} {args : List Term} {ws : List Bits}
    (h : b.Translates args ws b')
    (unseen : b.applications.find? (·.key == (Term.apply f args).render) = none) :
    b'.applications.find? (·.key == (Term.apply f args).render) = none := by
  refine List.find?_eq_none.mpr fun a ha => ?_
  obtain old | ⟨t, ht, le⟩ := h.texts a ha
  · exact List.find?_eq_none.mp unseen a old
  · have shorter := length_render_apply (f := f) ht
    rintro same
    rw [beq_iff_eq.mp same] at le
    omega

/-- An application whose text was not seen is remembered with a word of its own, once its arguments
are translated. -/
theorem Translates.runs_remember {f : String} {args : List Term} {ws : List Bits}
    (h : b.Translates args ws b') (sound : b'.Sound)
    (declared : b'.functions.lookup f = some (args.map Term.reading).length)
    (unseen : b.applications.find? (·.key == (Term.apply f args).render) = none) :
    b'.Runs (remember (Term.apply f args).render f ws)
      (fun w b'' => b.Translates [.apply f args] [w] b'') := by
  have plain := sound.plain_apply declared (List.forall_mem_map.mpr h.plain)
  have text : (Term.apply f (args.map Term.reading)).render = (Term.apply f args).render :=
    Term.render_apply_congr (Term.render_map_reading args)
  have reading := Term.reading_eq plain text
  have unseen' := h.unseen unseen
  have remembered := remember_spec sound declared plain h.words (text.symm ▸ unseen')
  rw [text] at remembered
  refine remembered.imp fun w b'' _ _ applications => .single (reading ▸ plain) ?_ ?_
  · rw [reading, word?, text, applications, List.find?_append, unseen']
    simp
  · rw [applications]
    refine List.forall_mem_append.mpr
      ⟨fun a ha => ?_, List.forall_mem_singleton.mpr (.inr (Nat.le_refl _))⟩
    refine (h.texts a ha).imp_right fun shorter => ?_
    obtain ⟨t, ht, le⟩ := shorter
    exact Nat.le_of_lt (Nat.lt_of_le_of_lt le (length_render_apply ht))

/-- A term that is translated gets the word of its reading. -/
theorem runs_term (t : Term) (sound : b.Sound) :
    b.Runs (term t) (fun w => b.Translates [t] [w]) := by
  induction t using Term.induction generalizing b with
  | literal n =>
      rw [term]
      refine .get_bind (.pure sound (.single ?_ ?_ fun a ha => .inl ha))
      · rw [Term.reading_of_plain (.literal n)]
        exact .literal n
      · rw [Term.reading_of_plain (.literal n)]
        rfl
  | symbol name =>
      rw [term]
      refine .get_bind ?_
      split
      next w found =>
        obtain ⟨before, after, eq, _⟩ := List.lookup_eq_some_iff.mp found
        have plain : (Term.symbol name).Plain := .symbol (sound.names (name, w) (by simp [eq]))
        have reading := Term.reading_of_plain plain
        exact .pure sound (.single (reading.symm ▸ plain) (reading.symm ▸ found) fun a ha => .inl ha)
      next => exact .throw sound _
  | apply f args ih =>
      rw [term]
      refine .get_bind ?_
      split
      next => exact .throw sound _
      next arity declared =>
        split
        next => exact .throw_bind sound _
        next length =>
          refine .get_bind ?_
          split
          next a found => exact .pure sound (sound.translates_known found)
          next unseen =>
            refine (runs_terms (fun t ht b sound => ih t ht sound) sound).bind
              fun ws b' sound' grows translates => ?_
            refine translates.runs_remember sound' ?_ unseen
            rw [lookup_mono grows.functions declared, List.length_map, not_not.mp length]

theorem Translates.word {t : Term} {w : Bits} (h : b.Translates [t] [w] b') :
    t.reading.Plain ∧ b'.word? t.reading = some w :=
  ⟨h.plain t List.mem_cons_self, (List.cons.inj h.words).1⟩

/-! ## Formulas -/

theorem runs_comparison (sound : b.Sound) {x y : Bits} (hx : x.Within b.circuit.nextVar)
    (hy : y.Within b.circuit.nextVar) (op : Comparison) :
    b.Runs (comparison x y op) fun l b' =>
      b'.circuit.Means l fun v => op.holds (x.value v).toNat (y.value v).toNat := by
  have equal := Runs.build sound (Bits.builds_eqBits sound.circuit hx hy)
  have below := Runs.build sound (Bits.builds_ultBits sound.circuit hx hy)
  have above := Runs.build sound (Bits.builds_ultBits sound.circuit hy hx)
  cases op with
  | eq =>
      refine equal.imp fun l b' _ _ means => means.congr fun v _ => ?_
      rw [Bool.eq_iff_iff, beq_iff_eq, ← UInt64.toNat_inj]
      exact beq_iff_eq.symm
  | ne =>
      refine equal.bind fun l b' sound' _ means => .pure sound' (means.negation.congr fun v _ => ?_)
      rw [Bool.eq_iff_iff, Bool.not_eq_true', beq_eq_false_iff_ne, ne_eq, ← UInt64.toNat_inj]
      exact bne_iff_ne.symm
  | lt => exact below
  | gt => exact above
  | le =>
      refine above.bind fun l b' sound' _ means => .pure sound' (means.negation.congr fun v _ => ?_)
      rw [← decide_not, Bool.eq_iff_iff, decide_eq_true_eq, UInt64.lt_iff_toNat_lt, Nat.not_lt]
      exact decide_eq_true_iff.symm
  | ge =>
      refine below.bind fun l b' sound' _ means => .pure sound' (means.negation.congr fun v _ => ?_)
      rw [← decide_not, Bool.eq_iff_iff, decide_eq_true_eq, UInt64.lt_iff_toNat_lt, Nat.not_lt]
      exact decide_eq_true_iff.symm
  | other n => exact .throw sound _

/-- The literal is worth what a formula is when its terms are read. -/
structure Expresses (b : BitBlaster) (l : Literal) (f : Formula Term) : Prop where
  terms : ∀ t ∈ f.leaves, t.reading.Plain ∧ ∃ w, b.word? t.reading = some w
  var : l.var ≤ b.circuit.nextVar
  holds : ∀ i v, b.circuit.Admits v → b.Agrees i v → l.holds v = f.reading.holdsIn i

theorem Expresses.grows {l : Literal} {f : Formula Term} (h : b.Expresses l f)
    (grows : b.Grows b') : b'.Expresses l f where
  terms t ht := (h.terms t ht).imp_right fun ⟨w, word⟩ => ⟨w, grows.word? word⟩
  var := Nat.le_trans h.var grows.nextVar
  holds i v hv agrees := h.holds i v (grows.admits v hv) (agrees.grows grows)

theorem runs_compare (sound : b.Sound) (op : Comparison) (l r : Term) :
    b.Runs (formula (.compare op l r)) (fun k b' => b'.Expresses k (.compare op l r)) := by
  rw [formula]
  refine (runs_term l sound).bind fun x b₁ sound₁ _ left => ?_
  refine (runs_term r sound₁).bind fun y b₂ sound₂ grows₂ right => ?_
  obtain ⟨plainL, word⟩ := left.word
  obtain ⟨plainR, wordR⟩ := right.word
  have wordL := grows₂.word? word
  refine (runs_comparison sound₂ (sound₂.within_word? wordL) (sound₂.within_word? wordR) op).imp
    fun k b₃ sound₃ grows₃ means => ⟨fun t ht => ?_, means.var, fun i v hv agrees => ?_⟩
  · obtain rfl | rfl := List.mem_pair.mp ht
    · exact ⟨plainL, x, grows₃.word? wordL⟩
    · exact ⟨plainR, y, grows₃.word? wordR⟩
  · rw [means.holds v hv, sound₃.value_eq hv agrees plainL (grows₃.word? wordL),
      sound₃.value_eq hv agrees plainR (grows₃.word? wordR)]
    rfl

theorem runs_formulas {fs : List (Formula Term)}
    (each : ∀ f ∈ fs, ∀ b : BitBlaster, b.Sound →
      b.Runs (formula f) (fun l b' => b'.Expresses l f))
    (sound : b.Sound) :
    b.Runs (formulas fs) (fun ls b' => List.Forall₂ b'.Expresses ls fs) := by
  induction fs generalizing b with
  | nil => exact .pure sound .nil
  | cons f fs ih =>
      obtain ⟨here, others⟩ := List.forall_mem_cons.mp each
      rw [formulas]
      refine (here b sound).bind fun l b₁ sound₁ _ first => ?_
      refine (ih others sound₁).bind fun ls b₂ sound₂ grows₂ rest => ?_
      exact .pure sound₂ (.cons (first.grows grows₂) rest)

/-- What literals of formulas are worth one by one. -/
theorem holds_of_forall₂ {ls : List Literal} {fs : List (Formula Term)}
    (each : List.Forall₂ b.Expresses ls fs) :
    (∀ l ∈ ls, l.var ≤ b.circuit.nextVar) ∧ (∀ f ∈ fs, ∀ t ∈ f.leaves, t.reading.Plain ∧
      ∃ w, b.word? t.reading = some w) ∧ ∀ i v, b.circuit.Admits v → b.Agrees i v →
        ls.map (·.holds v) = (fs.map Formula.reading).map (·.holdsIn i) := by
  induction each with
  | nil => exact ⟨List.forall_mem_nil _, List.forall_mem_nil _, fun _ _ _ _ => rfl⟩
  | cons first _ ih =>
      obtain ⟨vars, terms, holds⟩ := ih
      refine ⟨List.forall_mem_cons.mpr ⟨first.var, vars⟩,
        List.forall_mem_cons.mpr ⟨first.terms, terms⟩, fun i v hv agrees => ?_⟩
      rw [List.map_cons, List.map_cons, List.map_cons, first.holds i v hv agrees,
        holds i v hv agrees]

/-- A junction is expressed by the junction of literals. -/
theorem expresses_junction {fs : List (Formula Term)} {f : Formula Term} {ls : List Literal}
    {l : Literal} {k : List Bool → Bool} (leaves : f.leaves = fs.flatMap Formula.leaves)
    (worth : ∀ i, f.reading.holdsIn i = k ((fs.map Formula.reading).map (·.holdsIn i)))
    (each : List.Forall₂ b.Expresses ls fs) (grows : b.Grows b')
    (means : b'.circuit.Means l fun v => k (ls.map (·.holds v))) : b'.Expresses l f := by
  obtain ⟨_, terms, holds⟩ := holds_of_forall₂ each
  refine ⟨fun t ht => ?_, means.var, fun i v hv agrees => ?_⟩
  · rw [leaves] at ht
    obtain ⟨f, hf, ht⟩ := List.mem_flatMap.mp ht
    exact (terms f hf t ht).imp_right fun ⟨w, word⟩ => ⟨w, grows.word? word⟩
  · rw [means.holds v hv, holds i v (grows.admits v hv) (agrees.grows grows), worth]

/-- A formula that is translated gets a literal that is worth what its reading is. -/
theorem runs_formula (f : Formula Term) (sound : b.Sound) :
    b.Runs (formula f) (fun l b' => b'.Expresses l f) := by
  induction f using Formula.induction generalizing b with
  | compare op l r => exact runs_compare sound op l r
  | all fs ih =>
      rw [formula]
      refine (runs_formulas (fun f hf b sound => ih f hf sound) sound).bind
        fun ls b₁ sound₁ _ each => ?_
      have gate := Circuit.builds_andN sound₁.circuit (holds_of_forall₂ each).1
      refine (Runs.build sound₁ gate).imp fun l b₂ _ grows₂ means =>
        expresses_junction (k := (·.all id)) ?_ (fun i => ?_) each grows₂ (means.congr fun v _ => ?_)
      · rw [Formula.leaves, Formula.leavesList_eq]
      · rw [Formula.reading, Formula.map, Formula.mapList_eq, Formula.holdsIn, Formula.eval,
          Formula.evalAll_eq, List.all_map, List.all_map, List.all_map]
        rfl
      · rw [List.all_map]
        rfl
  | any fs ih =>
      rw [formula]
      refine (runs_formulas (fun f hf b sound => ih f hf sound) sound).bind
        fun ls b₁ sound₁ _ each => ?_
      have gate := Circuit.builds_orN sound₁.circuit (holds_of_forall₂ each).1
      refine (Runs.build sound₁ gate).imp fun l b₂ _ grows₂ means =>
        expresses_junction (k := (·.any id)) ?_ (fun i => ?_) each grows₂ (means.congr fun v _ => ?_)
      · rw [Formula.leaves, Formula.leavesList_eq]
      · rw [Formula.reading, Formula.map, Formula.mapList_eq, Formula.holdsIn, Formula.eval,
          Formula.evalAny_eq, List.any_map, List.any_map, List.any_map]
        rfl
      · rw [List.any_map]
        rfl
  | not f ih =>
      rw [formula]
      refine (ih sound).bind fun l b₁ sound₁ _ inner => .pure sound₁ ⟨inner.terms, inner.var, ?_⟩
      intro i v hv agrees
      rw [Literal.holds_negation, inner.holds i v hv agrees]
      rfl
  | truth x =>
      rw [formula]
      refine .get_bind (.pure sound ⟨fun t ht => absurd ht List.not_mem_nil, ?_, ?_⟩)
      · cases x with
        | true => exact sound.circuit.var_truth
        | false => exact sound.circuit.var_truth
      · intro i v hv _
        cases x with
        | true => exact sound.circuit.holds_truth hv
        | false => exact sound.circuit.holds_falsity hv

end ResourceSafety.Logic.BitBlaster
