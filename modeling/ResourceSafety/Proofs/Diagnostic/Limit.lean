import ResourceSafety.Proofs.Diagnostic.Engine
import ResourceSafety.Proofs.Violation

/-!
# What an engine holds

An engine is told to take up diagnostics, to put them in order, to write them out and to forget
them, in any order.  Whatever it was told, it holds the admitted ones among the diagnostics added
since it was last cleared, up to and including the error that reaches the limit
(`Engine.Kept`), and after that error one notice.  Putting them in order does not change which they
are, and the limit is reached by counting, so it does not matter when they are put in order.

One more diagnostic either leaves the engine alone, or lengthens a list that was whole, or cuts it
off (`Engine.Holds.add`).  From that follows what a whole run leaves (`Engine.limit_run`).

The order of diagnostics is lexicographic in six parts (`Diagnostic.rank`), so it is total on all
diagnostics, with a valid span or without, and sorting by it leaves those of equal rank in their
places.
-/

namespace ResourceSafety

namespace Diagnostic

/-- Where a diagnostic stands in a list that is in order.  Those with a valid span come first. -/
def rank (d : Diagnostic) : Bool ×ₗ (List Char ×ₗ ℤ ×ₗ ℤ) ×ₗ ℤ ×ₗ List Char :=
  toLex (!d.span.isValid, toLex (d.span.start.rank, toLex (d.level.number.toInt, d.code.toList)))

end Diagnostic

namespace Engine

open Diagnostic (rank)

variable {e : Engine} {config : EngineConfig} {limit : Int64} {ds kept : List Diagnostic}
  {d : Diagnostic}

/-! ## Calls -/

/-- A call on an engine.  The diagnostic to add may be missing. -/
inductive Call
  | add (d : Option Diagnostic)
  | sort
  | format
  | clear

/-- What a call leaves.  Diagnostics are written out in order, and stay in it. -/
def perform (e : Engine) : Call → Engine
  | .add none => e
  | .add (some d) => e.add d
  | .sort | .format => e.sort
  | .clear => e.clear

/-- The engine after calls. -/
def run (config : EngineConfig) (calls : List Call) : Engine := calls.foldl perform (empty config)

/-- The diagnostics added since the last clearing, after one more call. -/
def noted (ds : List Diagnostic) : Call → List Diagnostic
  | .add d => ds ++ d.toList
  | .sort | .format => ds
  | .clear => []

/-- The diagnostics added since the last clearing. -/
def added (calls : List Call) : List Diagnostic := calls.foldl noted []

/-- What the configuration makes of diagnostics: those with ignored codes are left out, and warnings
may be taken up as errors. -/
def admitted (config : EngineConfig) (ds : List Diagnostic) : List Diagnostic :=
  (ds.filter fun d => !config.ignore.contains d.code).map (promote config)

/-- A warning may count as an error.  Nothing else about a diagnostic changes. -/
theorem promote_eq (config : EngineConfig) (d : Diagnostic) : promote config d =
    { d with level :=
      if config.warningsAsErrors = true ∧ d.level = .warning then .error else d.level } := by
  simp only [promote, Bool.and_eq_true, beq_iff_eq]
  split <;> rfl

/-- Ignored diagnostics are left out, and of the others warnings may count as errors. -/
theorem admitted_eq (config : EngineConfig) (ds : List Diagnostic) : admitted config ds =
    (ds.filter (·.code ∉ config.ignore)).map fun d => { d with level :=
      if config.warningsAsErrors = true ∧ d.level = .warning then .error else d.level } := by
  rw [admitted]
  congr 1
  · exact funext (promote_eq config)
  · simp [List.contains_eq_mem]

/-! ## The limit -/

/-- The number of errors. -/
def errors (ds : List Diagnostic) : Nat := ds.countP (·.level == .error)

/-- There is a limit, and the errors reach it. -/
def Reached (limit : Int64) (ds : List Diagnostic) : Prop :=
  0 < limit.toInt ∧ limit.toInt ≤ errors ds

/-- What is kept of a list, and whether the limit was reached: the whole list if its errors do not
reach the limit, and else the list up to and including the error that does. -/
inductive Kept (limit : Int64) (ds : List Diagnostic) : List Diagnostic → Bool → Prop
  | whole (below : ¬Reached limit ds) : Kept limit ds ds false
  | cut {before after : List Diagnostic} {last : Diagnostic} (split : ds = before ++ last :: after)
      (error : last.level = .error) (nth : (errors before + 1 : Int) = limit.toInt) :
      Kept limit ds (before ++ [last]) true

/-- The notice that follows a list that was cut off. -/
def notices (limit : Int64) (reached : Bool) : List Diagnostic :=
  if reached then [limitNotice limit] else []

/-- The engine holds what is kept of a list, in some order, and the notice of the limit. -/
def Holds (ds : List Diagnostic) (e : Engine) : Prop :=
  ∃ kept, Kept e.config.maxErrors ds kept e.truncated ∧
    e.held.Perm (kept ++ notices e.config.maxErrors e.truncated)

theorem errors_append (ds ds' : List Diagnostic) : errors (ds ++ ds') = errors ds + errors ds' :=
  List.countP_append

theorem errors_singleton (d : Diagnostic) : errors [d] = if d.level = .error then 1 else 0 := by
  simp [errors, List.countP_cons]

theorem Kept.reached_iff {reached : Bool} (h : Kept limit ds kept reached) :
    reached = true ↔ Reached limit ds := by
  cases h with
  | whole below => exact iff_of_false Bool.false_ne_true below
  | @cut before after last split error nth =>
    refine iff_of_true rfl ⟨by omega, ?_⟩
    rw [split, ← List.singleton_append, errors_append, errors_append, errors_singleton, if_pos error]
    omega

theorem atLimit_iff : e.atLimit = true ↔ Reached e.config.maxErrors e.held := by
  rw [atLimit, Bool.and_eq_true, decide_eq_true_eq, decide_eq_true_eq, Int64.lt_iff_toInt_lt,
    errorCount, withLevel, ← List.countP_eq_length_filter]
  rfl

theorem Reached.perm {ds' : List Diagnostic} (same : ds.Perm ds') :
    Reached limit ds ↔ Reached limit ds' := by
  rw [Reached, Reached, errors, errors, same.countP_eq]

/-! ## What calls keep -/

theorem admitted_concat (config : EngineConfig) (ds : List Diagnostic) (d : Diagnostic) :
    admitted config (ds ++ [d]) =
      admitted config ds ++ if config.ignore.contains d.code then [] else [promote config d] := by
  rw [admitted, List.filter_append, List.map_append, List.filter_singleton]
  cases config.ignore.contains d.code <;> rfl

/-- A list that was cut off stays as it is when more diagnostics come. -/
theorem Kept.append (h : Kept limit ds kept true) (more : List Diagnostic) :
    Kept limit (ds ++ more) kept true := by
  cases h with
  | @cut before after last split error nth =>
    have split' : ds ++ more = before ++ last :: (after ++ more) := by
      rw [split, List.append_assoc, List.cons_append]
    exact .cut split' error nth

/-- The list is kept whole if it is the next diagnostic that reaches the limit, for that is an
error. -/
theorem Kept.of_reached (below : ¬Reached limit ds) (reached : Reached limit (ds ++ [d])) :
    Kept limit (ds ++ [d]) (ds ++ [d]) true := by
  obtain ⟨positive, reached⟩ := reached
  have short : (errors ds : Int) < limit.toInt := by
    by_contra enough
    exact below ⟨positive, not_lt.mp enough⟩
  rw [errors_append, errors_singleton] at reached
  by_cases error : d.level = .error
  · rw [if_pos error] at reached
    have split : ds ++ [d] = ds ++ d :: [] := rfl
    exact .cut split error (by omega)
  · rw [if_neg error] at reached
    omega

/-- As long as nothing was cut off, the engine holds the whole list. -/
theorem holds_iff_of_going (going : e.truncated = false) :
    Holds ds e ↔ ¬Reached e.config.maxErrors ds ∧ e.held.Perm ds := by
  rw [Holds, going]
  simp only [notices, Bool.false_eq_true, if_false, List.append_nil]
  constructor
  · rintro ⟨kept, cut, held⟩
    cases cut with
    | whole below => exact ⟨below, held⟩
  · rintro ⟨below, held⟩
    exact ⟨ds, .whole below, held⟩

theorem not_reached_nil (limit : Int64) : ¬Reached limit [] := fun ⟨positive, reached⟩ =>
  Int.not_lt.mpr reached positive

theorem Holds.add (holds : Holds (admitted e.config ds) e) (d : Diagnostic) :
    Holds (admitted e.config (ds ++ [d])) (e.add d) := by
  rw [admitted_concat]
  obtain ⟨drops, same⟩ | ⟨takes, below, same⟩ | ⟨takes, full, same⟩ := add_cases e d
  · rw [same]
    cases ignored : e.config.ignore.contains d.code with
    | true => simpa using holds
    | false =>
      have done : e.truncated = true := by
        rwa [Engine.drops, ignored, Bool.or_false] at drops
      obtain ⟨kept, cut, held⟩ := holds
      refine ⟨kept, ?_, held⟩
      rw [done] at cut ⊢
      exact cut.append _
  all_goals
    obtain ⟨going, admits⟩ := Bool.or_eq_false_iff.mp takes
    obtain ⟨short, held⟩ := (holds_iff_of_going going).mp holds
    have more : (e.taken d).held.Perm (admitted e.config ds ++ [promote e.config d]) :=
      held.append_right _
    have reached : (e.taken d).atLimit = true ↔
        Reached e.config.maxErrors (admitted e.config ds ++ [promote e.config d]) :=
      atLimit_iff.trans (Reached.perm more)
    rw [same, admits]
  · have going : (e.taken d).truncated = false := going
    exact (holds_iff_of_going going).mpr ⟨mt reached.mpr (ne_true_of_eq_false below), more⟩
  · exact ⟨_, .of_reached short (reached.mp full), more.append_right _⟩

theorem Holds.sort (holds : Holds ds e) : Holds ds e.sort := by
  obtain ⟨kept, cut, held⟩ := holds
  exact ⟨kept, cut, (List.mergeSort_perm e.held _).trans held⟩

theorem Holds.clear (e : Engine) : Holds [] e.clear :=
  (holds_iff_of_going (e := e.clear) rfl).mpr ⟨not_reached_nil _, .refl []⟩

@[simp] theorem config_perform (e : Engine) (call : Call) : (e.perform call).config = e.config := by
  cases call with
  | add d =>
    cases d with
    | none => rfl
    | some d => exact config_add e d
  | sort | format | clear => rfl

/-- What a call keeps. -/
theorem Holds.perform (holds : Holds (admitted e.config ds) e) (call : Call) :
    Holds (admitted e.config (noted ds call)) (e.perform call) := by
  cases call with
  | add d =>
    cases d with
    | none => rwa [noted, Option.toList_none, List.append_nil]
    | some d => exact holds.add d
  | sort | format => exact holds.sort
  | clear => exact .clear e

/-- What a run keeps. -/
theorem Holds.foldl_perform (holds : Holds (admitted e.config ds) e) (calls : List Call) :
    Holds (admitted e.config (calls.foldl noted ds)) (calls.foldl Engine.perform e) := by
  induction calls generalizing e ds with
  | nil => exact holds
  | cons call calls ih =>
    have next := holds.perform call
    rw [← config_perform e call] at next
    have rest := ih next
    rwa [config_perform] at rest

theorem config_run (config : EngineConfig) (calls : List Call) :
    (run config calls).config = config := by
  rw [run]
  generalize start : Engine.empty config = e
  have same : e.config = config := start ▸ rfl
  clear start
  induction calls generalizing e with
  | nil => exact same
  | cons call calls ih => exact ih _ ((config_perform e call).trans same)

theorem holds_run (config : EngineConfig) (calls : List Call) :
    Holds (admitted config (added calls)) (run config calls) := by
  have start : Holds (admitted config []) (Engine.empty config) :=
    (holds_iff_of_going rfl).mpr ⟨not_reached_nil _, .refl []⟩
  exact start.foldl_perform calls

/-! ## The order -/

/-- A comparison of severities, and of codes where these are the same. -/
theorem levelThenCode_iff {m n : Int64} {s t : String} :
    (if m ≠ n then decide (m < n) else decide (s < t)) = true ↔
      m.toInt < n.toInt ∨ m.toInt = n.toInt ∧ s.toList < t.toList := by
  have text : s.toList < t.toList ↔ s < t := Iff.rfl
  rw [← Int64.lt_iff_toInt_lt, Int64.toInt_inj, text]
  by_cases same : m = n
  · subst same
    simp
  · simp [same]

theorem comesBefore_iff {a b : Diagnostic} : comesBefore a b = true ↔ rank a < rank b := by
  rw [rank, rank, Prod.Lex.toLex_lt_toLex, Prod.Lex.toLex_lt_toLex, Prod.Lex.toLex_lt_toLex,
    ← Position.compare_eq_lt, ← Position.compare_eq_eq, ← levelThenCode_iff, comesBefore]
  cases a.span.isValid <;> cases b.span.isValid <;>
    cases a.span.start.compare b.span.start <;> simp

/-- The diagnostics are in order, and those of equal rank stand as they stood before. -/
structure Arranged (before after : List Diagnostic) : Prop where
  ordered : after.Pairwise fun a b => rank a ≤ rank b
  stable : ∀ d, after.filter (rank · = rank d) = before.filter (rank · = rank d)

/-- The order that the engine sorts by. -/
theorem not_comesBefore_iff {a b : Diagnostic} : (!comesBefore b a) = true ↔ rank a ≤ rank b := by
  rw [Bool.not_eq_true', Bool.eq_false_iff, ne_eq, comesBefore_iff, not_lt]

theorem arranged_sort (e : Engine) : Arranged e.held e.sort.held := by
  have trans (a b c : Diagnostic) : (!comesBefore b a) = true → (!comesBefore c b) = true →
      (!comesBefore c a) = true := by
    simp only [not_comesBefore_iff]
    exact le_trans
  have total (a b : Diagnostic) : (!comesBefore b a || !comesBefore a b) = true := by
    simp only [Bool.or_eq_true, not_comesBefore_iff]
    exact le_total _ _
  constructor
  · exact (List.pairwise_mergeSort trans total e.held).imp not_comesBefore_iff.mp
  · intro d
    -- Diagnostics of one rank are in order already, so sorting keeps them as a sublist.
    have level : (e.held.filter (rank · = rank d)).Pairwise fun a b => (!comesBefore b a) = true :=
      List.pairwise_of_forall_mem_list fun a ha b hb => by
        rw [not_comesBefore_iff, of_decide_eq_true (List.mem_filter.mp ha).2,
          of_decide_eq_true (List.mem_filter.mp hb).2]
    have kept := (List.sublist_mergeSort trans total level List.filter_sublist).filter
      (rank · = rank d)
    rw [List.filter_filter] at kept
    simp only [Bool.and_self] at kept
    have count := ((List.mergeSort_perm e.held fun a b => !comesBefore b a).filter
      (rank · = rank d)).length_eq
    exact (kept.eq_of_length count.symm).symm

/-- What is written is the list as it stands afterwards. -/
theorem render_sort (e : Engine) : e.sort.render = e.render := by
  have again : e.sort.sort = e.sort := by
    have ordered := (arranged_sort e).ordered.imp not_comesBefore_iff.mpr
    rw [sort, List.mergeSort_of_pairwise ordered]
  have empty : e.sort.held.isEmpty = e.held.isEmpty := (List.mergeSort_perm e.held _).isEmpty_eq
  rw [render, render, empty, again]

/-- After any calls an engine holds, in some order, those among the diagnostics added since it was
last cleared whose codes are not ignored, with warnings as errors if they count as such, up to and
including the error that reaches the limit, and after that an error with the code of the notice.
It says that the list was cut off if and only if the limit was reached.  One more call to sort or to
write puts the list in order. -/
theorem limit_run (config : EngineConfig) (calls : List Call) :
    let taken := ((added calls).filter (·.code ∉ config.ignore)).map fun d => { d with level :=
      if config.warningsAsErrors = true ∧ d.level = .warning then .error else d.level }
    (∃ kept notice, Kept config.maxErrors taken kept (run config calls).truncated ∧
      notice.code = "E5000" ∧ notice.level = .error ∧
      (run config calls).held.Perm
        (kept ++ if (run config calls).truncated = true then [notice] else [])) ∧
      ((run config calls).truncated = true ↔ Reached config.maxErrors taken) ∧
      ∀ call ∈ [Call.sort, Call.format],
        Arranged (run config calls).held (run config (calls ++ [call])).held := by
  intro taken
  obtain ⟨kept, cut, held⟩ := holds_run config calls
  rw [config_run] at cut held
  rw [show admitted config (added calls) = taken from admitted_eq _ _] at cut
  refine ⟨⟨kept, limitNotice config.maxErrors, cut, rfl, rfl, held⟩, cut.reached_iff,
    fun call mem => ?_⟩
  have last : run config (calls ++ [call]) = (run config calls).perform call := by
    rw [run, List.foldl_concat]
    rfl
  have sorts : (run config calls).perform call = (run config calls).sort := by
    simp only [List.mem_cons, List.not_mem_nil, or_false] at mem
    obtain rfl | rfl := mem <;> rfl
  rw [last, sorts]
  exact arranged_sort _

/-- Two warnings, the first with an ignored code, an error, and a note after it. -/
def warningsFirst : List Call :=
  [.add (some { code := "W1", level := .warning }), .add (some { code := "W2", level := .warning }),
   .sort, .add (some { code := "E3" }), .add (some { code := "N4", level := .note })]

/-- Where warnings are errors, the error of `warningsFirst` is the second one.  The note comes too
late. -/
theorem limit_run_warningsFirst :
    let e := run { ignore := ["W1"], maxErrors := 2, warningsAsErrors := true } warningsFirst
    e.truncated = true ∧ ∃ notice : Diagnostic, notice.code = "E5000" ∧ notice.level = .error ∧
      e.held.Perm [{ code := "W2", level := .error }, { code := "E3", level := .error }, notice] := by
  intro e
  obtain ⟨⟨kept, notice, cut, code, level, held⟩, reached, -⟩ :=
    limit_run { ignore := ["W1"], maxErrors := 2, warningsAsErrors := true } warningsFirst
  have full : e.truncated = true := reached.mpr ⟨by decide, by decide +kernel⟩
  rw [show (run _ warningsFirst).truncated = true from full] at cut held
  refine ⟨full, notice, code, level, ?_⟩
  generalize taken : List.map _ _ = ds at cut
  obtain rfl : ds = [{ code := "W2", level := .error }, { code := "E3", level := .error },
      { code := "N4", level := .note }] := taken.symm.trans (by decide +kernel)
  cases cut with
  | @cut before after last split error nth =>
    match before with
    | [] => cases nth
    | [first] =>
      obtain ⟨rfl, rfl, -⟩ : first = { code := "W2" } ∧ last = { code := "E3" } ∧ _ := by
        simpa [eq_comm] using split
      exact held
    | [_, _] =>
      obtain ⟨-, -, rfl, -⟩ : _ ∧ _ ∧ last = { code := "N4", level := .note } ∧ _ := by
        simpa [eq_comm] using split
      cases error
    | _ :: _ :: _ :: rest => simp at split

end Engine

end ResourceSafety
