import ResourceSafety.Proofs.Discharge.Verdict

/-!
# Ranges of literals

A range obligation on a literal is decided with a symbol that stands for the
literal.  The symbol is `v` with the next number behind it, and it is declared in
the session that holds all the pushed facts.

Where no handle has that symbol, the facts say nothing about it, and the verdict
depends on the literal alone.  A handle can have it, though: one made from the text
`v1` as the first is called `v10`, and so is the symbol of the literal that gets
number ten.  Then the facts about the handle bind the literal as well, and a
literal outside its range is proved to lie in it when the facts exclude it
(`Dialogue.discharge_literal`).
-/

namespace ResourceSafety

open Logic (BitBlaster Formula Interpretation SatSolver Satisfiable Term clauseLearning
  clauseLearning_decides)

/-! ## Symbols a formula does not speak of -/

namespace Logic

/-- The interpretation with another value of a symbol. -/
def Interpretation.withSymbol (i : Interpretation) (name : String) (value : UInt64) :
    Interpretation :=
  { i with symbol := fun other => if other = name then value else i.symbol other }

theorem Term.value_withSymbol (i : Interpretation) {name : String} (value : UInt64) {t : Term}
    (h : name ∉ t.symbols) : t.value (i.withSymbol name value) = t.value i := by
  induction t using Term.induction with
  | literal n => rfl
  | symbol other =>
      have ne : other ≠ name := fun eq => h (by rw [eq]; exact List.mem_cons_self)
      exact if_neg ne
  | apply f args ih =>
      have args_eq : args.map (Term.value (i.withSymbol name value)) = args.map (Term.value i) :=
        List.map_congr_left fun t ht => ih t ht fun mem => h (mem_symbols_apply ht mem)
      rw [Term.value, Term.value, valueList_eq, valueList_eq, args_eq]
      rfl

theorem Formula.holdsIn_withSymbol (i : Interpretation) {name : String} (value : UInt64)
    {f : Formula Term} (h : name ∉ f.symbols) :
    f.holdsIn (i.withSymbol name value) = f.holdsIn i := by
  refine Formula.eval_congr f fun t ht => ?_
  rw [Term.value_withSymbol i value fun mem => h (mem_symbols ht mem)]

end Logic

/-! ## The goal -/

open Logic.Action

/-- The facts let a symbol have a value. -/
def Allows (facts : List (Formula Term)) (name : String) (value : UInt64) : Prop :=
  ∃ i : Interpretation, (∀ f ∈ facts, f.holdsIn i = true) ∧ i.symbol name = value

/-- The goal that the value `n` of a symbol is outside a range. -/
def outside (name : String) (n lo hi : UInt64) : Formula Term :=
  .all [.compare .eq (.symbol name) (.literal n),
    (Condition.range lo hi).failure (.symbol name)]

theorem holdsIn_outside (i : Interpretation) (name : String) (n lo hi : UInt64) :
    (outside name n lo hi).holdsIn i = true ↔ i.symbol name = n ∧ ¬(lo ≤ n ∧ n ≤ hi) := by
  have eq_iff (a b : Nat) : Logic.Comparison.eq.holds a b = true ↔ a = b := beq_iff_eq
  have fails := Condition.holdsIn_failure_range i (.symbol name) lo hi
  simp only [outside, Formula.holdsIn, Formula.eval, Formula.evalAll, Bool.and_true,
    Bool.and_eq_true, eq_iff, Term.value, UInt64.toNat_inj] at fails ⊢
  rw [fails]
  exact and_congr_right fun value => by rw [value]

theorem satisfiable_outside_iff {facts : List (Formula Term)} {name : String} {n lo hi : UInt64} :
    Satisfiable (facts ++ [outside name n lo hi]) ↔
      ¬(lo ≤ n ∧ n ≤ hi) ∧ Allows facts name n := by
  constructor
  · rintro ⟨i, holds⟩
    obtain ⟨value, out⟩ := (holdsIn_outside i name n lo hi).mp
      (holds _ (List.mem_append_right _ List.mem_cons_self))
    exact ⟨out, i, fun f hf => holds f (List.mem_append_left _ hf), value⟩
  · rintro ⟨out, i, holds, value⟩
    refine ⟨i, fun f hf => ?_⟩
    rcases List.mem_append.mp hf with hf | hf
    · exact holds f hf
    · cases List.mem_singleton.mp hf
      exact (holdsIn_outside i name n lo hi).mpr ⟨value, out⟩

theorem symbols_outside (name : String) (n lo hi : UInt64) :
    (outside name n lo hi).symbols = [name] := by
  simp [outside, Condition.failure, Formula.symbols, Formula.leaves, Formula.leavesList,
    Term.symbols, List.eraseDups_cons]

/-- The facts do not bind a symbol they do not speak of. -/
theorem allows_of_fresh {facts : List (Formula Term)} {name : String}
    (satisfiable : Satisfiable facts) (fresh : ∀ f ∈ facts, name ∉ f.symbols)
    (n : UInt64) : Allows facts name n := by
  obtain ⟨i, holds⟩ := satisfiable
  refine ⟨i.withSymbol name n, fun f hf => ?_, if_pos rfl⟩
  rw [Formula.holdsIn_withSymbol i n (fresh f hf)]
  exact holds f hf

theorem plain_handleRange {name : String} (proper : Logic.isName name = true) :
    (Discharger.handleRange name).Plain := by
  refine Formula.plain_of_isWellFormed rfl ?_
  rw [Discharger.symbols_handleRange]
  exact List.forall_mem_singleton.mpr proper

theorem holdsIn_handleRange (i : Interpretation) (name : String) :
    (Discharger.handleRange name).holdsIn i = true ↔ i.symbol name ≤ Discharger.handleMax := by
  have ge_iff (a b : Nat) : Logic.Comparison.ge.holds a b = true ↔ b ≤ a := decide_eq_true_iff
  have le_iff (a b : Nat) : Logic.Comparison.le.holds a b = true ↔ a ≤ b := decide_eq_true_iff
  simp only [Discharger.handleRange, Formula.holdsIn, Formula.eval, Formula.evalAll, Bool.and_true,
    Bool.and_eq_true, ge_iff, le_iff, Term.value, UInt64.le_iff_toNat_le]
  exact ⟨fun h => h.2, fun h => ⟨Nat.zero_le _, h⟩⟩

namespace Dialogue

/-- The symbol that would stand for a literal next. -/
def literalSymbol (p : Dialogue) : String := "v" ++ toString p.discharger.nonce

variable {sat : SatSolver} {d : Discharger BitBlaster} {facts : List (Formula Term)}

/-- The goal of a range obligation on a literal, and the state it is decided in. -/
theorem exists_refutation (sound : Sound sat ⟨d, facts⟩) (n lo hi : UInt64) (span : Span) :
    ∃ e, (Discharger.refutation ⟨.literal n, .range lo hi, span⟩).perform
        { d with session := some (d.current sat) } =
          (.ok (outside (literalSymbol ⟨d, facts⟩) n lo hi, ""), e) ∧
      Discharger.Kept sat d e ∧
      literalSymbol ⟨d, facts⟩ ∈ (e.current sat).signature.constants := by
  have kept : Discharger.Kept sat d
      { d with session := some (d.current sat), nonce := d.nonce + 1 } :=
    .of_eq rfl rfl rfl rfl rfl
  obtain ⟨_, ready, _⟩ := sound.ready
  obtain ⟨e, declare, kept', declared, _⟩ := Discharger.exists_declareConstant
    (ready.kept kept) false (Discharger.isName_symbolStem "v" d.nonce)
    (Discharger.isShapeFunction_symbolStem "v" d.nonce)
  refine ⟨e, ?_, kept.trans kept', declared⟩
  unfold Discharger.refutation
  dsimp only
  rw [perform_bind_ok (Discharger.perform_nextName "v")]
  exact (perform_bind_ok declare).trans rfl

/-- A range obligation on a literal is always decided.  It is proved when the
literal lies in the range or the facts do not let its symbol have that value, and
refuted otherwise. -/
theorem Sound.discharge_literal (sound : Sound sat ⟨d, facts⟩) (decides : sat.Decides)
    (plain : ∀ f ∈ facts, f.Plain) (n lo hi : UInt64) (span : Span) :
    ∃ outcome violation e,
      (Discharger.discharge false ⟨.literal n, .range lo hi, span⟩).perform d =
        (.ok (outcome, violation), e) ∧
      (outcome = .proved ↔ (lo ≤ n ∧ n ≤ hi) ∨ ¬Allows facts (literalSymbol ⟨d, facts⟩) n) ∧
      (outcome = .refuted ↔ ¬(lo ≤ n ∧ n ≤ hi) ∧ Allows facts (literalSymbol ⟨d, facts⟩) n) := by
  obtain ⟨e, refutation, kept, declared⟩ := exists_refutation sound n lo hi span
  obtain ⟨v, s, solved, settles⟩ := sound.exists_verdict decides plain refutation kept rfl (by
    rw [symbols_outside]
    exact List.forall_mem_singleton.mpr declared)
  rw [satisfiable_outside_iff] at settles
  obtain ⟨proved, refuted⟩ :=
    Discharger.conclude_settles ⟨.literal n, .range lo hi, span⟩ "" settles
  refine ⟨_, _, _, solved, proved.trans ?_, refuted⟩
  rw [not_and_or, not_not]

/-- A range obligation on a literal is decided as the literal alone says, unless its
symbol is one of the handles and the facts do not let that handle have the value of
the literal.  Then it is proved, whatever the range. -/
theorem discharge_literal_iff (sat : SatSolver) (config : SolverConfig) (ledger : Ledger)
    (decides : sat.Decides) (qs : List Request) (n lo hi : UInt64) (span : Span)
    (plain : ∀ f ∈ (run sat config ledger qs).pushed, f.Plain)
    (satisfiable : Satisfiable (run sat config ledger qs).pushed) :
    let p := run sat config ledger qs
    ∃ outcome violation d,
      (Discharger.discharge false ⟨.literal n, .range lo hi, span⟩).perform p.discharger =
        (.ok (outcome, violation), d) ∧
      (outcome = .proved ↔ (lo ≤ n ∧ n ≤ hi) ∨ ¬Allows p.pushed p.literalSymbol n) ∧
      (outcome = .refuted ↔ ¬(lo ≤ n ∧ n ≤ hi) ∧ Allows p.pushed p.literalSymbol n) ∧
      (p.literalSymbol ∉ p.discharger.handles → Allows p.pushed p.literalSymbol n) := by
  intro p
  have sound : Sound sat p := sound_run sat config ledger qs
  obtain ⟨outcome, violation, d, solved, proved, refuted⟩ :=
    sound.discharge_literal decides plain n lo hi span
  refine ⟨outcome, violation, d, solved, proved, refuted, fun fresh => ?_⟩
  exact allows_of_fresh satisfiable (fun f hf mem => fresh (sound.speaks f hf _ mem)) n

/-- With one handle that has nothing to do with it, seven is outside zero to five. -/
theorem discharge_literal_iff_seven :
    ∃ violation d, (Discharger.discharge false ⟨.literal 7, .range 0 5, .zero⟩).perform
      (run clauseLearning {} ⟨"", "", []⟩ [.fresh false "img"]).discharger =
        (.ok (.refuted, violation), d) := by
  have name : Discharger.symbolStem "img" ++ toString 0 = "img0" := by decide +kernel
  obtain ⟨pushed, _⟩ := run_one_fresh clauseLearning {} ⟨"", "", []⟩ name
  have other : (run clauseLearning {} ⟨"", "", []⟩ [.fresh false "img"]).literalSymbol ∉
      (run clauseLearning {} ⟨"", "", []⟩ [.fresh false "img"]).discharger.handles := by
    decide +kernel
  obtain ⟨outcome, violation, d, solved, _, refuted, allows⟩ :=
    discharge_literal_iff clauseLearning {} ⟨"", "", []⟩ clauseLearning_decides
      [.fresh false "img"] 7 0 5 .zero
      (by rw [pushed]; exact List.forall_mem_singleton.mpr (plain_handleRange (by decide)))
      ⟨⟨fun _ => 0, fun _ _ => 0⟩, by rw [pushed]; decide⟩
  rw [refuted.mpr ⟨by decide, allows other⟩] at solved
  exact ⟨violation, d, solved⟩

/-- A handle called `v10` keeps the literal with number ten below `2 ^ 32`. -/
theorem Sound.discharge_literal_ten {texts : List String} {q : Dialogue} (sound : Sound sat q)
    (decides : sat.Decides)
    (pushed : q.pushed = (("v1" :: texts).zipIdx.map
      fun t => Discharger.symbolStem t.1 ++ toString t.2).map Discharger.handleRange)
    (nonce : q.discharger.nonce = 10) :
    Satisfiable q.pushed ∧
      ∃ violation d, (Discharger.discharge false ⟨.literal 4294967296, .range 0 5, .zero⟩).perform
        q.discharger = (.ok (.proved, violation), d) := by
  have symbol : q.literalSymbol = "v10" := by
    rw [literalSymbol, nonce]
    decide
  have plain : ∀ f ∈ q.pushed, f.Plain := by
    rw [pushed]
    exact List.forall_mem_map.mpr (List.forall_mem_map.mpr fun t _ =>
      plain_handleRange (Discharger.isName_symbolStem t.1 t.2))
  have excluded : ¬Allows q.pushed q.literalSymbol 4294967296 := by
    rw [pushed, symbol]
    rintro ⟨i, holds, value⟩
    have range := holds (Discharger.handleRange "v10") List.mem_cons_self
    rw [holdsIn_handleRange, value] at range
    revert range
    decide
  obtain ⟨outcome, violation, d, solved, proved, _⟩ :=
    sound.discharge_literal decides plain 4294967296 0 5 .zero
  rw [proved.mpr (Or.inr excluded)] at solved
  refine ⟨⟨⟨fun _ => 0, fun _ _ => 0⟩, ?_⟩, violation, d, solved⟩
  rw [pushed]
  have zero : (0 : UInt64) ≤ Discharger.handleMax := by decide
  exact List.forall_mem_map.mpr fun name _ => (holdsIn_handleRange _ name).mpr zero

/-- The first handle, made from `v1`, and the eleventh name, made for a literal, are
both called `v10`.  So a literal that no handle can be is proved to lie in a range
that it is outside of. -/
theorem discharge_literal_outside_proved :
    let p := run clauseLearning {} ⟨"", "", []⟩ (("v1" :: List.replicate 9 "a").map (.fresh false))
    ¬((0 : UInt64) ≤ 4294967296 ∧ (4294967296 : UInt64) ≤ 5) ∧ Satisfiable p.pushed ∧
      ∃ violation d, (Discharger.discharge false ⟨.literal 4294967296, .range 0 5, .zero⟩).perform
        p.discharger = (.ok (.proved, violation), d) := by
  obtain ⟨pushed, _, nonce⟩ := run_fresh clauseLearning {} ⟨"", "", []⟩
    ("v1" :: List.replicate 9 "a")
  rw [List.length_cons, List.length_replicate] at nonce
  exact ⟨by decide, (sound_run clauseLearning {} ⟨"", "", []⟩ _).discharge_literal_ten
    clauseLearning_decides pushed nonce⟩

end Dialogue

end ResourceSafety
