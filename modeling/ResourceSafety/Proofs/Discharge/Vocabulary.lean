import ResourceSafety.Discharge.Obligation
import ResourceSafety.Proofs.Logic.Understanding

/-!
# Formulas about handles and dimensions

A *well-formed* formula compares numbers, symbols and dimensions of tensors.  Its comparisons are
known ones, and the only function in it is the one that holds dimensions, with its two arguments.
Facts about handles are of this form, and so are the goals of obligations.

A session that knows the function and the symbols understands every such formula
(`BitBlaster.Shaped.exists_formula`), and reads it right (`Formula.plain_of_isWellFormed`).
-/

namespace ResourceSafety.Logic

/-! ## Well-formed terms and formulas -/

mutual

/-- Every application in the term is one of the shape function to two terms. -/
def Term.isWellFormed : Term → Bool
  | .literal _ => true
  | .symbol _ => true
  | .apply f args => f == shapeFunction && args.length == 2 && Term.areWellFormed args

/-- All of the terms are well formed. -/
def Term.areWellFormed : List Term → Bool
  | [] => true
  | t :: ts => Term.isWellFormed t && Term.areWellFormed ts

end

mutual

/-- The formula joins known comparisons of well-formed terms. -/
def Formula.isWellFormed : Formula Term → Bool
  | .compare op l r => op.isKnown && l.isWellFormed && r.isWellFormed
  | .all fs => Formula.areWellFormed fs
  | .any fs => Formula.areWellFormed fs
  | .not f => Formula.isWellFormed f
  | .truth _ => true

/-- All of the formulas are well formed. -/
def Formula.areWellFormed : List (Formula Term) → Bool
  | [] => true
  | f :: fs => Formula.isWellFormed f && Formula.areWellFormed fs

end

theorem Term.areWellFormed_iff {ts : List Term} :
    areWellFormed ts = true ↔ ∀ t ∈ ts, t.isWellFormed = true := by
  induction ts with
  | nil => simp [areWellFormed]
  | cons t ts ih => simp [areWellFormed, ih]

theorem Formula.areWellFormed_iff {fs : List (Formula Term)} :
    areWellFormed fs = true ↔ ∀ f ∈ fs, f.isWellFormed = true := by
  induction fs with
  | nil => simp [areWellFormed]
  | cons f fs ih => simp [areWellFormed, ih]

theorem Term.isWellFormed_apply {f : String} {args : List Term} :
    (Term.apply f args).isWellFormed = true ↔
      f = shapeFunction ∧ args.length = 2 ∧ ∀ t ∈ args, t.isWellFormed = true := by
  simp only [isWellFormed, Bool.and_eq_true, beq_iff_eq, areWellFormed_iff, and_assoc]

/-- The terms that a well-formed formula compares are well formed. -/
theorem Formula.isWellFormed_leaves {f : Formula Term} (h : f.isWellFormed = true) :
    ∀ t ∈ f.leaves, t.isWellFormed = true := by
  induction f using Formula.induction with
  | compare op l r =>
      simp only [isWellFormed, Bool.and_eq_true] at h
      exact List.forall_mem_cons.mpr ⟨h.1.2, fun t ht => by rw [List.mem_singleton.mp ht, h.2]⟩
  | all fs ih | any fs ih =>
      rw [isWellFormed, areWellFormed_iff] at h
      intro t ht
      rw [leaves, leavesList_eq] at ht
      obtain ⟨f, hf, ht⟩ := List.mem_flatMap.mp ht
      exact ih f hf (h f hf) t ht
  | not f ih => exact ih h
  | truth b => exact fun t ht => absurd ht List.not_mem_nil

/-! ## Symbols -/

theorem Term.symbolsList_eq (ts : List Term) : symbolsList ts = ts.flatMap symbols := by
  induction ts with
  | nil => rfl
  | cons t ts ih => rw [symbolsList, ih, List.flatMap_cons]

theorem Term.mem_symbols_apply {f name : String} {args : List Term} {t : Term} (ht : t ∈ args)
    (h : name ∈ t.symbols) : name ∈ (Term.apply f args).symbols := by
  rw [symbols, symbolsList_eq]
  exact List.mem_flatMap.mpr ⟨t, ht, h⟩

theorem Formula.mem_symbols {f : Formula Term} {name : String} {t : Term} (ht : t ∈ f.leaves)
    (h : name ∈ t.symbols) : name ∈ f.symbols :=
  List.mem_eraseDups.mpr (List.mem_flatMap.mpr ⟨t, ht, h⟩)

theorem Term.plain_of_isWellFormed {t : Term} (wellFormed : t.isWellFormed = true)
    (names : ∀ name ∈ t.symbols, isName name = true) : t.Plain := by
  induction t using Term.induction with
  | literal n => exact .literal n
  | symbol name => exact .symbol (names name List.mem_cons_self)
  | apply f args ih =>
      obtain ⟨rfl, length, each⟩ := isWellFormed_apply.mp wellFormed
      refine .apply (isWord_of_isName (by decide)) (fun none => ?_) fun t ht => ?_
      · rw [none] at length
        cases length
      · exact ih t ht (each t ht) fun name hn => names name (mem_symbols_apply ht hn)

/-- A well-formed formula whose symbols are names is plain. -/
theorem Formula.plain_of_isWellFormed {f : Formula Term} (wellFormed : f.isWellFormed = true)
    (names : ∀ name ∈ f.symbols, isName name = true) : f.Plain := fun t ht =>
  Term.plain_of_isWellFormed (isWellFormed_leaves wellFormed t ht)
    fun name hn => names name (mem_symbols ht hn)

/-! ## What a session understands -/

section

variable {g : Signature}

/-- The function that holds dimensions, among other names. -/
def isShapeFunction (name : String) : Bool := name == shapeFunction

theorem Term.isNamed_of_isWellFormed {t : Term} (wellFormed : t.isWellFormed = true)
    (names : ∀ name ∈ t.symbols, isName name = true ∧ isShapeFunction name = false) :
    t.isNamed isShapeFunction = true := by
  induction t using Term.induction with
  | literal n => rfl
  | symbol name =>
      obtain ⟨proper, other⟩ := names name List.mem_cons_self
      rw [isNamed, proper, other]
      rfl
  | apply f args ih =>
      obtain ⟨rfl, _, each⟩ := isWellFormed_apply.mp wellFormed
      have inner : areNamed isShapeFunction args = true := areNamed_iff.mpr fun t ht =>
        ih t ht (each t ht) fun name hn => names name (mem_symbols_apply ht hn)
      rw [isNamed, inner]
      decide

theorem Formula.isNamed_of_isWellFormed {f : Formula Term} (wellFormed : f.isWellFormed = true)
    (names : ∀ name ∈ f.symbols, isName name = true ∧ isShapeFunction name = false) :
    f.isNamed isShapeFunction = true :=
  List.all_eq_true.mpr fun t ht =>
    Term.isNamed_of_isWellFormed (isWellFormed_leaves wellFormed t ht)
      fun name hn => names name (mem_symbols ht hn)

theorem Term.isUnderstood_of_isWellFormed (shape : g.functions.lookup shapeFunction = some 2)
    {t : Term} (wellFormed : t.isWellFormed = true)
    (declared : ∀ name ∈ t.symbols, name ∈ g.constants) : t.isUnderstood g = true := by
  induction t using Term.induction with
  | literal n => rfl
  | symbol name => exact List.contains_iff_mem.mpr (declared name List.mem_cons_self)
  | apply f args ih =>
      obtain ⟨rfl, length, each⟩ := isWellFormed_apply.mp wellFormed
      refine isUnderstood_apply.mpr ⟨length ▸ shape, fun t ht => ?_⟩
      exact ih t ht (each t ht) fun name hn => declared name (mem_symbols_apply ht hn)

theorem Formula.areUnderstood_iff {fs : List (Formula Term)} :
    areUnderstood g fs = true ↔ ∀ f ∈ fs, f.isUnderstood g = true := by
  induction fs with
  | nil => simp [areUnderstood]
  | cons f fs ih => simp [areUnderstood, ih]

theorem Formula.mem_symbols_of_mem {f : Formula Term} {fs : List (Formula Term)} (hf : f ∈ fs)
    {name : String} (hn : name ∈ f.symbols) : name ∈ (Formula.all fs).symbols := by
  obtain ⟨t, ht, hn⟩ := List.mem_flatMap.mp (List.mem_eraseDups.mp hn)
  exact mem_symbols (mem_leaves_all hf ht) hn

/-- A well-formed formula about declared symbols is understood. -/
theorem Formula.isUnderstood_of_isWellFormed (shape : g.functions.lookup shapeFunction = some 2)
    {f : Formula Term} (wellFormed : f.isWellFormed = true)
    (declared : ∀ name ∈ f.symbols, name ∈ g.constants) : f.isUnderstood g = true := by
  induction f using Formula.induction with
  | compare op l r =>
      simp only [isWellFormed, Bool.and_eq_true] at wellFormed
      obtain ⟨⟨known, left⟩, right⟩ := wellFormed
      have understood {t : Term} (ht : t ∈ (compare op l r).leaves) (h : t.isWellFormed = true) :
          t.isUnderstood g = true :=
        Term.isUnderstood_of_isWellFormed shape h fun name hn => declared name (mem_symbols ht hn)
      rw [isUnderstood, understood (by simp [leaves]) left, understood (by simp [leaves]) right,
        known]
      rfl
  | all fs ih | any fs ih =>
      rw [isWellFormed, areWellFormed_iff] at wellFormed
      exact areUnderstood_iff.mpr fun f hf => ih f hf (wellFormed f hf) fun name hn =>
        declared name (mem_symbols_of_mem hf hn)
  | not f ih => exact ih wellFormed declared
  | truth b => rfl

end

namespace BitBlaster

variable {b c : BitBlaster} {sat : SatSolver} {log : List Entry}

/-- The session of a discharger asserts a log.  The only function that it knows is the one that
holds dimensions, which is no symbol. -/
structure Shaped (b : BitBlaster) (sat : SatSolver) (log : List Entry) : Prop where
  faithful : b.Faithful sat log
  functions : b.functions = [(shapeFunction, 2)]
  symbols : ∀ c ∈ b.constants, isShapeFunction c.1 = false

/-- The session has translated more, or asserts more. -/
theorem Shaped.same {more : List Entry} (shaped : b.Shaped sat log)
    (faithful : c.Faithful sat more) (same : b.SameNames c) : c.Shaped sat more :=
  ⟨faithful, same.functions.trans shaped.functions, same.constants.symm ▸ shaped.symbols⟩

theorem Shaped.names (shaped : b.Shaped sat log) {name : String}
    (declared : name ∈ b.signature.constants) :
    isName name = true ∧ isShapeFunction name = false := by
  obtain ⟨c, hc, rfl⟩ := List.mem_map.mp declared
  exact ⟨shaped.faithful.sound.names c hc, shaped.symbols c hc⟩

theorem mem_constants_of_lookup {name : String} {w : Bits}
    (found : b.constants.lookup name = some w) : name ∈ b.signature.constants := by
  refine List.contains_iff_mem.mp ?_
  rw [signature, contains_map_fst, found]
  rfl

/-- A session can declare a further symbol. -/
theorem Shaped.declareConstant (shaped : b.Shaped sat log) {name : String}
    (proper : isName name = true) (other : isShapeFunction name = false) :
    ((declareConstant name).perform b).2.Shaped sat log := by
  have faithful := shaped.faithful.declareConstant proper
  rw [perform_declareConstant shaped.faithful.opened] at faithful ⊢
  by_cases known : (b.constants.lookup name).isSome
  · rw [if_pos known]
    exact shaped
  · rw [if_neg known] at faithful ⊢
    exact ⟨faithful, shaped.functions,
      List.forall_mem_append.mpr ⟨shaped.symbols, List.forall_mem_singleton.mpr other⟩⟩

theorem mem_constants_declareConstant (opened : b.closed = false) {name other : String}
    (h : other = name ∨ other ∈ b.signature.constants) :
    other ∈ ((declareConstant name).perform b).2.signature.constants := by
  rw [perform_declareConstant opened]
  by_cases known : (b.constants.lookup name).isSome
  · rw [if_pos known]
    obtain rfl | old := h
    · obtain ⟨w, found⟩ := Option.isSome_iff_exists.mp known
      exact mem_constants_of_lookup found
    · exact old
  · rw [if_neg known]
    show other ∈ (b.constants ++ [_]).map Prod.fst
    rw [List.map_append]
    obtain rfl | old := h
    · exact List.mem_append_right _ List.mem_cons_self
    · exact List.mem_append_left _ old

/-- The session understands the well-formed formulas about its symbols. -/
theorem Shaped.exists_formula (shaped : b.Shaped sat log) {f : Formula Term}
    (wellFormed : f.isWellFormed = true)
    (declared : ∀ name ∈ f.symbols, name ∈ b.signature.constants) :
    ∃ l c, (formula f).perform b = (.ok l, c) := by
  have shape : b.signature.functions.lookup shapeFunction = some 2 := by
    rw [signature, shaped.functions]
    rfl
  have meets := meets_formula (Formula.isNamed_of_isWellFormed wellFormed
    fun name hn => shaped.names (declared name hn)) shaped.faithful.sound shaped.symbols
  have answers := meets.answers
  rw [Formula.isUnderstood_of_isWellFormed shape wellFormed declared] at answers
  rcases translated : (formula f).perform b with ⟨fault | l, c⟩
  · rw [translated] at answers
    cases answers
  · exact ⟨l, c, rfl⟩

end BitBlaster

end ResourceSafety.Logic
