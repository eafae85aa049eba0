import ResourceSafety.Proofs.Discharge.Queue
import ResourceSafety.Proofs.Discharge.Recording
import ResourceSafety.Proofs.Discharge.Verdict

/-!
# Proved shapes

A shape is asserted one dimension at a time, and a shape obligation fails where a
dimension differs.  Nothing says how many dimensions a tensor has.  So what is proved
of a handle is that its shape begins with the given dimensions: the shapes that are
proved are the prefixes of the one that was asserted, the empty one included
(`Dialogue.discharge_shape_iff_prefix`).

The facts leave the dimension after the last asserted one open as long as it is not the
dimension of some other tensor of theirs.  An interpretation of the facts stays one when
that dimension is changed (`Formula.holdsIn_withDimension`), and with the right value
there it refutes a longer shape.
-/

namespace ResourceSafety

open Logic (Formula Interpretation SatSolver Satisfiable Solver Term clauseLearning
  clauseLearning_decides)

/-! ## Dimensions a formula does not speak of -/

namespace Logic

mutual

/-- The tensors a term speaks of: the first arguments of its dimensions. -/
def Term.tensors : Term → List Term
  | .literal _ => []
  | .symbol _ => []
  | .apply f args => (if f = shapeFunction then args.take 1 else []) ++ Term.tensorsList args

/-- The tensors terms speak of. -/
def Term.tensorsList : List Term → List Term
  | [] => []
  | t :: ts => Term.tensors t ++ Term.tensorsList ts

end

/-- The tensors a formula speaks of. -/
def Formula.tensors (f : Formula Term) : List Term := f.leaves.flatMap Term.tensors

/-- The interpretation with another dimension of a tensor. -/
def Interpretation.withDimension (i : Interpretation) (tensor place dim : UInt64) :
    Interpretation :=
  { i with
    function := fun f args =>
      if f = shapeFunction ∧ args = [tensor, place] then dim else i.function f args }

theorem Term.tensorsList_eq (ts : List Term) : Term.tensorsList ts = ts.flatMap Term.tensors := by
  induction ts with
  | nil => rfl
  | cons t ts ih => rw [tensorsList, ih, List.flatMap_cons]

variable {i : Interpretation} {tensor place dim : UInt64}

theorem Term.value_withDimension {t : Term} (apart : ∀ s ∈ t.tensors, s.value i ≠ tensor) :
    t.value (i.withDimension tensor place dim) = t.value i := by
  induction t using Term.induction with
  | literal n => rfl
  | symbol name => rfl
  | apply f args ih =>
      rw [tensors, List.forall_mem_append, tensorsList_eq] at apart
      obtain ⟨first, inner⟩ := apart
      have args_eq : args.map (Term.value (i.withDimension tensor place dim)) =
          args.map (Term.value i) :=
        List.map_congr_left fun t ht =>
          ih t ht fun s hs => inner s (List.mem_flatMap.mpr ⟨t, ht, hs⟩)
      rw [Term.value, Term.value, valueList_eq, valueList_eq, args_eq]
      -- The changed dimension is not this one: its tensor would be the first argument.
      refine if_neg fun both => ?_
      obtain ⟨shape, same⟩ := both
      rw [if_pos shape] at first
      cases args with
      | nil => cases same
      | cons s args => exact first s List.mem_cons_self (List.cons.inj same).1

theorem Formula.holdsIn_withDimension {f : Formula Term}
    (apart : ∀ s ∈ f.tensors, s.value i ≠ tensor) :
    f.holdsIn (i.withDimension tensor place dim) = f.holdsIn i := by
  refine Formula.eval_congr f fun t ht => ?_
  rw [Term.value_withDimension fun s hs => apart s (List.mem_flatMap.mpr ⟨t, ht, hs⟩)]

end Logic

/-! ## Shapes that begin with other shapes -/

/-- A tensor of a shape has every shape that it begins with. -/
theorem Condition.holds_shape_of_prefix {i : Interpretation} {x : UInt64} {es ds : List UInt64}
    (begins : es <+: ds) (h : (shape ds).Holds i x) : (shape es).Holds i x := by
  intro k bound
  rw [h k (Nat.lt_of_lt_of_le bound begins.length_le)]
  exact (begins.getElem bound).symm

/-- A shape that another one does not begin with differs from it at a place, or is longer. -/
theorem exists_differs_or_lt_of_not_prefix {es ds : List UInt64} (h : ¬es <+: ds) :
    (∃ (k : Nat) (he : k < es.length) (hd : k < ds.length), es[k] ≠ ds[k]) ∨
      ds.length < es.length := by
  rw [List.prefix_iff_getElem] at h
  by_cases longer : ds.length < es.length
  · exact .inr longer
  · simp only [not_exists, not_forall] at h
    obtain ⟨k, bound, differs⟩ := h (Nat.le_of_not_lt longer)
    exact .inl ⟨k, bound, _, differs⟩

/-! ## Handles stay known -/

namespace Discharger

open Logic.Action

variable {σ : Type}

/-- Every handle is still one afterwards. -/
def KeepsHandles (d e : Discharger σ) : Prop := d.handles ⊆ e.handles

theorem KeepsHandles.trans {d e f : Discharger σ} (first : KeepsHandles d e)
    (second : KeepsHandles e f) : KeepsHandles d f :=
  List.Subset.trans first second

variable [Solver σ]

theorem Decides.keepsHandles {d e : Discharger σ} {o : Obligation} {fate : Fate}
    (h : Decides o d fate e) : KeepsHandles d e := by
  have kept := (moves_ask o d).tells.handles
  cases h with
  | unsat answer | sat answer | unknown answer | fault answer =>
      rw [answer] at kept
      exact kept

theorem keepsHandles_solve (o : Obligation) (d : Discharger σ) :
    KeepsHandles d ((solve o).perform d).2 := by
  obtain ⟨fate, e, decides, outcome⟩ := exists_decides o d
  rcases solved : (solve o).perform d with ⟨fault | _, f⟩
  · rw [solved] at outcome
    exact outcome.1 ▸ decides.keepsHandles
  · rw [solved] at outcome
    exact outcome.1 ▸ decides.keepsHandles

theorem Works.keepsHandles {d e : Discharger σ} {started : List (Obligation × Fate)}
    (h : Works d started e) : KeepsHandles d e := by
  induction h with
  | nil d => exact List.Subset.refl _
  | cons _ decides _ ih => exact decides.keepsHandles.trans ih

/-- A handle is known after every further request. -/
theorem keepsHandles_after (d : Discharger σ) (q : Dialogue.Request) :
    KeepsHandles d (d.after q) := by
  cases q with
  | fresh cancelled text => exact (tells_freshSymbol cancelled text d).handles
  | push cancelled fact => exact (tells_pushConstraint cancelled fact d).handles
  | assertShape cancelled symbol dims => exact (tells_assertShape cancelled symbol dims d).handles
  | enqueue o => exact (tells_enqueue o d).handles
  | flush gaveUp =>
      obtain ⟨started, found, fault, e, flushed, works, -⟩ := exists_works gaveUp d
      show KeepsHandles d ((flush gaveUp).run d).2
      rw [flushed]
      exact works.keepsHandles
  | discharge cancelled o =>
      show KeepsHandles d ((discharge cancelled o).perform d).2
      unfold discharge
      rw [perform_bind, perform_requireStated]
      cases d.refusal? o with
      | some fault => exact List.Subset.refl _
      | none =>
          cases cancelled with
          | true => exact List.Subset.refl _
          | false => exact keepsHandles_solve o d

end Discharger

namespace Dialogue

open Logic.Action

variable {name : String} {ds : List UInt64} {facts : List (Formula Term)} {i : Interpretation}

theorem mem_dimensionFacts {place : Nat} {f : Formula Term} :
    f ∈ dimensionFacts name place ds ↔
      ∃ (k : Nat) (_ : k < ds.length), f = dimensionFact name (place + k) ds[k] := by
  induction ds generalizing place with
  | nil => simp [dimensionFacts]
  | cons d ds ih =>
      rw [dimensionFacts, List.mem_cons, ih]
      constructor
      · rintro (rfl | ⟨k, bound, rfl⟩)
        · exact ⟨0, Nat.succ_pos _, rfl⟩
        · exact ⟨k + 1, Nat.succ_lt_succ bound, by rw [Nat.add_right_comm, Nat.add_assoc]; rfl⟩
      · rintro ⟨_ | k, bound, rfl⟩
        · exact .inl rfl
        · exact .inr ⟨k, Nat.lt_of_succ_lt_succ bound, by
            rw [Nat.add_right_comm, Nat.add_assoc]; rfl⟩

theorem holdsIn_dimensionFact {place : Nat} {dim : UInt64} :
    (dimensionFact name place dim).holdsIn i = true ↔
      i.function shapeFunction [i.symbol name, .ofNat place] = dim := by
  have eq_iff (a b : Nat) : Logic.Comparison.eq.holds a b = true ↔ a = b := beq_iff_eq
  simp only [dimensionFact, dimensionOf, Formula.holdsIn, Formula.eval, eq_iff, Term.value,
    Term.valueList, UInt64.toNat_inj]

/-- The facts of a shape say that the handle has the shape. -/
theorem holds_dimensionFacts :
    (∀ f ∈ dimensionFacts name 0 ds, f.holdsIn i = true) ↔
      (Condition.shape ds).Holds i (i.symbol name) := by
  simp only [mem_dimensionFacts, Condition.Holds, Nat.zero_add]
  constructor
  · intro holds k bound
    exact holdsIn_dimensionFact.mp (holds _ ⟨k, bound, rfl⟩)
  · rintro holds f ⟨k, bound, rfl⟩
    exact holdsIn_dimensionFact.mpr (holds k bound)

/-- In the interpretation `i` the facts of a shape are all that is said of the dimensions of a
handle: the other facts speak of other tensors. -/
def OnlyShape (facts : List (Formula Term)) (name : String) (ds : List UInt64)
    (i : Interpretation) : Prop :=
  ∀ f ∈ facts, f ∉ dimensionFacts name 0 ds → ∀ t ∈ f.tensors, t.value i ≠ i.symbol name

/-- The dimension after the last asserted one can have any value. -/
theorem holds_withDimension (bounded : ds.length < 2 ^ 64)
    (holds : ∀ f ∈ facts, f.holdsIn i = true) (only : OnlyShape facts name ds i) (dim : UInt64) :
    ∀ f ∈ facts, f.holdsIn (i.withDimension (i.symbol name) (.ofNat ds.length) dim) = true := by
  intro f hf
  by_cases asserted : f ∈ dimensionFacts name 0 ds
  · obtain ⟨k, bound, rfl⟩ := mem_dimensionFacts.mp asserted
    have before := holdsIn_dimensionFact.mp (holds _ hf)
    refine holdsIn_dimensionFact.mpr ?_
    rw [← before]
    refine if_neg fun ⟨_, same⟩ => ?_
    have place : UInt64.ofNat (0 + k) = UInt64.ofNat ds.length := by
      simpa using (List.cons.inj (List.cons.inj same).2).1
    have eq := congrArg UInt64.toNat place
    rw [UInt64.toNat_ofNat', UInt64.toNat_ofNat'] at eq
    omega
  · rw [Formula.holdsIn_withDimension (only f hf asserted)]
    exact holds f hf

/-- The facts bind a handle to the prefixes of its asserted shape, and to no other shape. -/
theorem holds_shape_iff_prefix (bounded : ds.length < 2 ^ 64)
    (told : ∀ f ∈ dimensionFacts name 0 ds, f ∈ facts)
    (holds : ∀ f ∈ facts, f.holdsIn i = true) (only : OnlyShape facts name ds i)
    (es : List UInt64) :
    (∀ j : Interpretation, (∀ f ∈ facts, f.holdsIn j = true) →
        (Condition.shape es).Holds j (j.symbol name)) ↔ es <+: ds := by
  have shaped {j : Interpretation} (holds : ∀ f ∈ facts, f.holdsIn j = true) :
      (Condition.shape ds).Holds j (j.symbol name) :=
    holds_dimensionFacts.mp fun f hf => holds f (told f hf)
  constructor
  · intro bound
    by_contra other
    obtain ⟨k, he, hd, differs⟩ | longer := exists_differs_or_lt_of_not_prefix other
    · exact differs ((bound i holds k he).symm.trans (shaped holds k hd))
    · have changed := bound _ (holds_withDimension bounded holds only (es[ds.length] + 1))
        ds.length longer
      have value : es[ds.length] + 1 = es[ds.length] := (if_pos ⟨rfl, rfl⟩).symm.trans changed
      simp at value
  · exact fun begins j holds => Condition.holds_shape_of_prefix begins (shaped holds)

/-! ## Asserting a shape -/

variable {sat : SatSolver} {config : SolverConfig} {ledger : Ledger} {first : List Request}

/-- Facts stay pushed, and handles known. -/
theorem foldl_step_grows (p : Dialogue) (qs : List Request) :
    p.pushed ⊆ (qs.foldl step p).pushed ∧
      p.discharger.handles ⊆ (qs.foldl step p).discharger.handles := by
  induction qs generalizing p with
  | nil => exact ⟨List.Subset.refl _, List.Subset.refl _⟩
  | cons q qs ih =>
      obtain ⟨pushed, handles⟩ := ih (p.step q)
      refine ⟨List.Subset.trans ?_ pushed, List.Subset.trans ?_ handles⟩
      · cases q with
        | fresh | push | assertShape =>
            unfold step
            dsimp only
            split
            next => exact List.subset_append_left _ _
            next => exact List.Subset.refl _
        | enqueue | flush | discharge => exact List.Subset.refl _
      · rw [discharger_step]
        exact Discharger.keepsHandles_after p.discharger q

/-- The shape of a known handle can always be asserted, and is among the facts from then on. -/
theorem told_of_assertShape (known : name ∈ (run sat config ledger first).discharger.handles)
    (cancelled : Bool) (ds : List UInt64) (rest : List Request) :
    let p := run sat config ledger (first ++ .assertShape cancelled name ds :: rest)
    name ∈ p.discharger.handles ∧ ∀ f ∈ dimensionFacts name 0 ds, f ∈ p.pushed := by
  intro p
  have served : p = rest.foldl step
      ((run sat config ledger first).step (.assertShape cancelled name ds)) := by
    show run sat config ledger _ = _
    unfold run
    rw [List.foldl_append, List.foldl_cons]
  have told := (sound_run sat config ledger first).pushed_assertShape cancelled known ds
  have still : name ∈
      ((run sat config ledger first).step (.assertShape cancelled name ds)).discharger.handles := by
    rw [discharger_step]
    exact Discharger.keepsHandles_after _ _ known
  obtain ⟨grows, handles⟩ := foldl_step_grows
    ((run sat config ledger first).step (.assertShape cancelled name ds)) rest
  rw [told] at grows
  rw [served]
  exact ⟨handles still, fun f hf => grows (List.mem_append_right _ hf)⟩

/-! ## Obligations on shapes -/

/-- A shape is proved of a handle exactly when the asserted shape begins with it, and refuted
otherwise.  All that is assumed is that the SAT solver is right, and an interpretation of the facts
in which the asserted dimensions are all that they say of the dimensions of the handle. -/
theorem discharge_shape_iff_prefix {cancelled : Bool} {rest : List Request}
    (decides : sat.Decides) (wellFormed : ∀ q ∈ first ++ rest, q.isWellFormed = true)
    (known : name ∈ (run sat config ledger first).discharger.handles) (bounded : ds.length < 2 ^ 64)
    (holds : ∀ f ∈ (run sat config ledger (first ++ .assertShape cancelled name ds :: rest)).pushed,
      f.holdsIn i = true)
    (only : OnlyShape
      (run sat config ledger (first ++ .assertShape cancelled name ds :: rest)).pushed name ds i)
    (es : List UInt64) (span : Span) :
    ∃ outcome violation d,
      (Discharger.discharge false ⟨.handle name, .shape es, span⟩).perform
          (run sat config ledger (first ++ .assertShape cancelled name ds :: rest)).discharger =
        (.ok (outcome, violation), d) ∧
      (outcome = .proved ↔ es <+: ds) ∧ (outcome = .refuted ↔ ¬es <+: ds) ∧
      (violation = none ↔ es <+: ds) := by
  have each : ∀ q ∈ first ++ .assertShape cancelled name ds :: rest, q.isWellFormed = true := by
    obtain ⟨before, after⟩ := List.forall_mem_append.mp wellFormed
    exact List.forall_mem_append.mpr ⟨before, List.forall_mem_cons.mpr ⟨rfl, after⟩⟩
  obtain ⟨still, told⟩ := told_of_assertShape known cancelled ds rest
  have sound := sound_run sat config ledger (first ++ .assertShape cancelled name ds :: rest)
  have plain := plain_run sat config ledger each
  obtain ⟨outcome, violation, d, performed, proved, refuted, -, -, found⟩ :=
    sound.discharge_handle decides plain still (.shape es) span
  have binds := holds_shape_iff_prefix bounded told holds only es
  have clean : violation = none ↔ outcome = .proved :=
    Option.not_isSome_iff_eq_none.symm.trans ((not_congr found).trans not_not)
  exact ⟨outcome, violation, d, performed, proved.trans binds, refuted.trans (not_congr binds),
    clean.trans (proved.trans binds)⟩

/-- A tensor of two dimensions. -/
def twoByThree : List Request := [.fresh false "t"] ++ .assertShape false "t0" [2, 3] :: []

/-- An interpretation in which the tensor of `twoByThree` is zero and has its dimensions. -/
def twoByThreeModel : Interpretation where
  symbol _ := 0
  function _ args := if args = [0, 0] then 2 else 3

theorem fresh_tensor :
    (run clauseLearning {} ⟨"", "", []⟩ [.fresh false "t"]).pushed =
        [Discharger.handleRange "t0"] ∧
      "t0" ∈ (run clauseLearning {} ⟨"", "", []⟩ [.fresh false "t"]).discharger.handles :=
  run_one_fresh clauseLearning {} ⟨"", "", []⟩ (by decide +kernel)

theorem pushed_twoByThree :
    (run clauseLearning {} ⟨"", "", []⟩ twoByThree).pushed =
      Discharger.handleRange "t0" :: dimensionFacts "t0" 0 [2, 3] := by
  obtain ⟨pushed, known⟩ := fresh_tensor
  have sound := sound_run clauseLearning {} ⟨"", "", []⟩ [.fresh false "t"]
  rw [twoByThree, run_append, sound.pushed_assertShape false known, pushed]
  rfl

theorem holds_twoByThree : ∀ f ∈ (run clauseLearning {} ⟨"", "", []⟩ twoByThree).pushed,
    f.holdsIn twoByThreeModel = true := by
  rw [pushed_twoByThree]
  decide

/-- A tensor with the dimensions two and three has the shape `[2, 3]`, and it need not have the
shape `[2, 4]`. -/
theorem discharge_shape_two_by_three :
    (∃ d, (Discharger.discharge false ⟨.handle "t0", .shape [2, 3], .zero⟩).perform
      (run clauseLearning {} ⟨"", "", []⟩ twoByThree).discharger = (.ok (.proved, none), d)) ∧
      ∃ violation d, (Discharger.discharge false ⟨.handle "t0", .shape [2, 4], .zero⟩).perform
        (run clauseLearning {} ⟨"", "", []⟩ twoByThree).discharger =
          (.ok (.refuted, violation), d) := by
  have wellFormed : ∀ q ∈ [Request.fresh false "t"] ++ [], q.isWellFormed = true := by decide
  have only : OnlyShape (run clauseLearning {} ⟨"", "", []⟩ twoByThree).pushed "t0" [2, 3]
      twoByThreeModel := by
    intro f mem other
    rw [pushed_twoByThree] at mem
    obtain rfl | asserted := List.mem_cons.mp mem
    · decide
    · exact absurd asserted other
  constructor
  · obtain ⟨outcome, violation, d, performed, proved, -, clean⟩ :=
      discharge_shape_iff_prefix clauseLearning_decides wellFormed fresh_tensor.2 (by decide)
        holds_twoByThree only [2, 3] .zero
    rw [proved.mpr (by decide), clean.mpr (by decide)] at performed
    exact ⟨d, performed⟩
  · obtain ⟨outcome, violation, d, performed, -, refuted, -⟩ :=
      discharge_shape_iff_prefix clauseLearning_decides wellFormed fresh_tensor.2 (by decide)
        holds_twoByThree only [2, 4] .zero
    rw [refuted.mpr (by decide)] at performed
    exact ⟨violation, d, performed⟩

/-- A tensor with the dimensions two and three is proved to have the shape `[2]`. -/
theorem discharge_shorter_shape_proved :
    ([2] : List UInt64) ≠ [2, 3] ∧
      Satisfiable (run clauseLearning {} ⟨"", "", []⟩ twoByThree).pushed ∧
      ∃ d, (Discharger.discharge false ⟨.handle "t0", .shape [2], .zero⟩).perform
        (run clauseLearning {} ⟨"", "", []⟩ twoByThree).discharger = (.ok (.proved, none), d) := by
  have asserted := told_of_assertShape fresh_tensor.2 false [2, 3] []
  rw [← twoByThree] at asserted
  obtain ⟨still, told⟩ := asserted
  have sound := sound_run clauseLearning {} ⟨"", "", []⟩ twoByThree
  have each : ∀ q ∈ twoByThree, q.isWellFormed = true := by decide
  obtain ⟨outcome, violation, d, performed, proved, -, -, -, found⟩ :=
    sound.discharge_handle clauseLearning_decides (plain_run clauseLearning {} ⟨"", "", []⟩ each)
      still (.shape [2]) .zero
  have holds := proved.mpr fun j facts => Condition.holds_shape_of_prefix (by decide)
    (holds_dimensionFacts.mp fun f mem => facts f (told f mem))
  have clean : violation = none :=
    Option.not_isSome_iff_eq_none.mp fun some => found.mp some holds
  rw [clean, holds] at performed
  exact ⟨by decide, ⟨twoByThreeModel, holds_twoByThree⟩, d, performed⟩

end Dialogue

end ResourceSafety
