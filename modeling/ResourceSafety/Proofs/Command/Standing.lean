import ResourceSafety.Command.Run
import ResourceSafety.Proofs.Diagnostic.Engine
import ResourceSafety.Proofs.Json.Values

/-!
# The verdict of a run

A run checks traces, filters their diagnostics, counts how the units stand, writes the
examinations in one of two forms, and ends with an exit code.

Between the checks and the end stands the engine, which drops, promotes, cuts off and sorts.  None
of that decides a unit: it is accepted exactly when no diagnostic of its report counts as an error
(`Examiner.accepted_iff`).  The three counts, the exit code and the status of the JSON text are
read off the examinations apart from each other, and they agree (`Surroundings.verdict_of_levels`).
-/

namespace ResourceSafety

/-! ## From results to examinations -/

/-- What came of checking a trace. -/
structure TraceResult where
  /-- The path. -/
  path : String
  /-- The trace and its report, or why there is none. -/
  outcome : Except UnitError (Trace × Report)

/-- No diagnostic of the report is an error, nor a warning if warnings count as errors. -/
def Report.Clean (warningsAsErrors : Bool) (r : Report) : Prop :=
  ∀ d ∈ r.diagnostics, d.level ≠ .error ∧ (warningsAsErrors = true → d.level ≠ .warning)

namespace TraceResult

/-- The trace could not be checked. -/
def Failed (r : TraceResult) : Prop := ∃ cause, r.outcome = .error cause

/-- The trace was checked, and its report is not clean. -/
def Rejected (warningsAsErrors : Bool) (r : TraceResult) : Prop :=
  ∃ trace report, r.outcome = .ok (trace, report) ∧ ¬report.Clean warningsAsErrors

end TraceResult

namespace Examiner

variable {σ : Type}

/-- The result of a trace. -/
def attempt [Logic.Solver σ] (x : Examiner σ) (t : FileTree) (path : String) : TraceResult where
  path := path
  outcome := do
    let trace ← load t path
    return (trace, ← x.report Juncture.never trace)

/-- The examination that a result amounts to. -/
def judge (x : Examiner σ) (r : TraceResult) : Examination where
  path := r.path
  result := r.outcome.map fun (trace, report) => { report, engine := x.filter trace report }

theorem examine_eq_judge [Logic.Solver σ] (x : Examiner σ) (t : FileTree) (path : String) :
    x.examine t path = x.judge (x.attempt t path) := by
  unfold examine judge attempt
  dsimp only
  cases load t path with
  | error e => rfl
  | ok trace =>
    simp only [bind, Except.bind]
    cases x.report Juncture.never trace with
    | error e => rfl
    | ok report => rfl

end Examiner

/-! ## Acceptance -/

namespace Engine

theorem promote_level_eq_error {config : EngineConfig} {d : Diagnostic} :
    (promote config d).level = .error ↔
      d.level = .error ∨ config.warningsAsErrors = true ∧ d.level = .warning := by
  unfold promote
  split
  next h =>
    rw [Bool.and_eq_true, beq_iff_eq] at h
    exact iff_of_true rfl (.inr h)
  next h =>
    rw [Bool.and_eq_true, beq_iff_eq] at h
    exact (or_iff_left h).symm

theorem counts_iff {config : EngineConfig} (all : config.ignore = []) {d : Diagnostic} :
    counts config d = true ↔
      d.level = .error ∨ config.warningsAsErrors = true ∧ d.level = .warning := by
  rw [counts, all, ← promote_level_eq_error]
  exact beq_iff_eq

end Engine

namespace Examiner

variable {σ : Type} {x : Examiner σ}

/-- No engine stands between the levels of a report and its acceptance. -/
theorem accepted_iff (all : x.engine.ignore = []) (trace : Trace) (report : Report) :
    CheckedUnit.accepted { report, engine := x.filter trace report } = true ↔
      report.Clean x.engine.warningsAsErrors := by
  have errors (config : EngineConfig) (same : config.warningsAsErrors = x.engine.warningsAsErrors)
      (all : config.ignore = []) :
      (report.diagnostics.foldl Engine.add (.empty config)).sort.hasErrors = false ↔
        report.Clean x.engine.warningsAsErrors := by
    rw [Engine.hasErrors_sort, (Engine.honest_empty config).hasErrors_foldl_add]
    show report.diagnostics.any (Engine.counts config) = false ↔ _
    rw [List.any_eq_false, ← same]
    refine forall₂_congr fun d mem => ?_
    rw [Engine.counts_iff all, not_or, not_and]
  rw [CheckedUnit.accepted, Bool.not_eq_true', filter]
  split
  · exact errors _ rfl all
  · exact errors _ rfl all

variable {r : TraceResult}

theorem judge_failed : (∃ cause, (x.judge r).result = .error cause) ↔ r.Failed := by
  obtain ⟨path, outcome⟩ := r
  cases outcome with
  | error cause => exact iff_of_true ⟨cause, rfl⟩ ⟨cause, rfl⟩
  | ok checked => exact iff_of_false (fun ⟨_, h⟩ => by cases h) (fun ⟨_, h⟩ => by cases h)

theorem judge_rejected (all : x.engine.ignore = []) :
    (∃ u, (x.judge r).result = .ok u ∧ u.accepted = false) ↔
      r.Rejected x.engine.warningsAsErrors := by
  obtain ⟨path, outcome⟩ := r
  cases outcome with
  | error cause => exact iff_of_false (fun ⟨_, h, _⟩ => by cases h) (fun ⟨_, _, h, _⟩ => by cases h)
  | ok checked =>
    have clean := not_congr (accepted_iff all checked.1 checked.2)
    rw [Bool.not_eq_true] at clean
    constructor
    · rintro ⟨u, ⟨⟩, rejected⟩
      exact ⟨_, _, rfl, clean.mp rejected⟩
    · rintro ⟨trace, report, ⟨⟩, unclean⟩
      exact ⟨_, rfl, clean.mpr unclean⟩

end Examiner

/-! ## Counts -/

namespace Standing

variable {es : List Examination}

/-- Every examination is counted once. -/
theorem total (es : List Examination) :
    (of es).accepted + (of es).rejected + (of es).failed = es.length := by
  induction es with
  | nil => rfl
  | cons e es ih =>
    simp only [of, List.filter_cons] at ih ⊢
    cases e.result with
    | error cause =>
      simp
      omega
    | ok u =>
      cases accepted : u.accepted with
      | true =>
        simp [accepted]
        omega
      | false =>
        simp [accepted]
        omega

theorem failed_pos : 0 < (of es).failed ↔ ∃ e ∈ es, ∃ cause, e.result = .error cause := by
  rw [of, List.length_filter_pos_iff]
  refine exists_congr fun e => and_congr_right fun _ => ?_
  cases e.result with
  | error cause => simp
  | ok u => simp

theorem rejected_pos :
    0 < (of es).rejected ↔ ∃ e ∈ es, ∃ u, e.result = .ok u ∧ u.accepted = false := by
  rw [of, List.length_filter_pos_iff]
  refine exists_congr fun e => and_congr_right fun _ => ?_
  cases e.result with
  | error cause => simp
  | ok u => simp

end Standing

/-! ## The JSON text -/

namespace JsonValue

/-- The text of the first field with a name. -/
def textAt? (name : String) : JsonValue → Option String
  | object fs =>
    match fs.lookup name with
    | some (string text) => some text
    | _ => none
  | _ => none

/-- The status that a JSON text gives. -/
def status? (text : String) : Option String := (ofString? text).bind (textAt? "status")

end JsonValue

namespace Examination

open JsonValue (Readable)

theorem readable_textField (name text : String) {room : Nat} :
    ∀ f ∈ textField name text, Readable room f.2 := by
  unfold textField
  split
  · exact List.forall_mem_nil _
  · exact List.forall_mem_singleton.mpr (.string text)

theorem readable_diagnosticJson (d : Diagnostic) {room : Nat} :
    Readable (room + 3) (diagnosticJson d) := by
  refine .object ?_
  simp only [List.forall_mem_append]
  refine ⟨⟨⟨⟨?_, readable_textField _ _⟩, readable_textField _ _⟩, readable_textField _ _⟩, ?_⟩
  · simp [Readable.string]
  · split
    · exact List.forall_mem_nil _
    · refine List.forall_mem_singleton.mpr (.list (List.forall_mem_map.mpr fun r _ => .object ?_))
      simp [Readable.string]

theorem readable_toJson (e : Examination) {room : Nat} : Readable (room + 5) e.toJson := by
  refine .object (List.forall_mem_cons.mpr ⟨.string e.path, ?_⟩)
  split
  · simp only [List.forall_mem_append]
    refine ⟨⟨?_, readable_textField _ _⟩, ?_⟩
    · simp [Readable.bool, Readable.int 0]
    · exact List.forall_mem_singleton.mpr (.list (List.forall_mem_nil _))
  · next u _ =>
    have diagnostics : Readable (room + 4) (.list (u.engine.held.map diagnosticJson)) :=
      .list (List.forall_mem_map.mpr fun d _ => readable_diagnosticJson d)
    simp only [List.forall_mem_append]
    refine ⟨⟨readable_textField _ _, readable_textField _ _⟩, ?_⟩
    simp [Readable.bool, Readable.int, diagnostics]

theorem readable_allToJson (es : List Examination) :
    Readable JsonValue.depthLimit (allToJson es) := by
  have units : Readable 9999 (.list (es.map toJson)) :=
    .list (List.forall_mem_map.mpr fun e _ => e.readable_toJson)
  show Readable (9999 + 1) _
  refine .object ?_
  simp [Readable.string, Readable.int, units]

theorem status?_render (es : List Examination) :
    JsonValue.status? (allToJson es).render =
      if 0 < (Standing.of es).failed then some "error"
      else if 0 < (Standing.of es).rejected then some "rejected" else some "ok" := by
  rw [JsonValue.status?, JsonValue.ofString?_render (readable_allToJson es), ← apply_ite some,
    ← apply_ite some]
  rfl

end Examination

/-! ## The end of a run -/

/-- Some trace could not be checked. -/
def SomeFailed (results : List TraceResult) : Prop := ∃ r ∈ results, r.Failed

/-- Some trace was checked, and its report is not clean. -/
def SomeRejected (warningsAsErrors : Bool) (results : List TraceResult) : Prop :=
  ∃ r ∈ results, r.Rejected warningsAsErrors

namespace Surroundings

variable {σ : Type}

/-- How a run ends with the results of its traces. -/
def conclude (s : Surroundings σ) (c : Config) (asJson : Bool) (results : List TraceResult) :
    CommandResult :=
  let es := results.map (s.examiner c).judge
  { output := Examination.write asJson es, tree := s.tree, failure := verdict? es }

theorem verify_eq_conclude [Logic.Solver σ] (s : Surroundings σ) (i : Invocation) (c : Config) :
    s.verify i c = (do
      let paths ← (s.tree.select i.arguments).mapError .selection
      if s.cancelled then .error .cancelled
      else .ok (s.conclude c (i.options.format == "json")
        (paths.map ((s.examiner c).attempt s.tree)))) := by
  have judged (paths : List String) : paths.map ((s.examiner c).examine s.tree) =
      (paths.map ((s.examiner c).attempt s.tree)).map (s.examiner c).judge := by
    rw [List.map_map]
    exact List.map_congr_left fun path _ => Examiner.examine_eq_judge _ _ _
  unfold verify examineAll
  simp only [bind, Except.bind]
  cases (s.tree.select i.arguments).mapError CommandError.selection with
  | error e => rfl
  | ok paths =>
    dsimp only
    rw [judged]
    cases s.cancelled with
    | true => rfl
    | false => rfl

theorem exitCode_verdict? (es : List Examination) :
    ((verdict? es).map (·.exitCode)).getD 0 =
      if 0 < (Standing.of es).failed then 2 else if 0 < (Standing.of es).rejected then 1 else 0 := by
  unfold verdict?
  dsimp only
  split
  · rfl
  · split
    · rfl
    · rfl

variable (s : Surroundings σ) (c : Config) (results : List TraceResult)

theorem failed_pos_iff :
    0 < (Standing.of (results.map (s.examiner c).judge)).failed ↔ SomeFailed results := by
  simp only [Standing.failed_pos, List.mem_map, exists_exists_and_eq_and, Examiner.judge_failed]
  rfl

theorem rejected_pos_iff :
    0 < (Standing.of (results.map (s.examiner c).judge)).rejected ↔
      SomeRejected c.warningsAsErrors results := by
  have unignored : (s.examiner c).engine.ignore = [] := rfl
  simp only [Standing.rejected_pos, List.mem_map, exists_exists_and_eq_and,
    Examiner.judge_rejected unignored]
  rfl

/-- A value that is read off two counts, the first of which goes before the second. -/
theorem three_ways {α : Type} {failed rejected : Prop} {m n : Nat} (hm : 0 < m ↔ failed)
    (hn : 0 < n ↔ rejected) {a b c x : α} (ab : a ≠ b) (ac : a ≠ c) (bc : b ≠ c)
    (read : x = if 0 < m then a else if 0 < n then b else c) :
    (x = a ↔ failed) ∧ (x = b ↔ ¬failed ∧ rejected) ∧ (x = c ↔ ¬failed ∧ ¬rejected) := by
  rw [read, ← hm, ← hn]
  split_ifs with failed rejected
  · simp [failed, ab, ac]
  · simp [failed, rejected, ab.symm, bc]
  · simp [failed, rejected, ac.symm, bc.symm]

/-- The verdict of a run is that of the levels of its reports, however the engine cuts off and
however the examinations are written.  A checked unit is accepted when its report is clean, every
result is counted once, and the exit code and the status say both whether a trace failed, or else
whether one was rejected. -/
theorem verdict_of_levels [Logic.Solver σ] (asJson : Bool) :
    (∀ path trace report, ∃ u,
      ((s.examiner c).judge ⟨path, .ok (trace, report)⟩).result = .ok u ∧
        (u.accepted = true ↔ report.Clean c.warningsAsErrors)) ∧
    (Standing.of (results.map (s.examiner c).judge)).accepted +
      (Standing.of (results.map (s.examiner c).judge)).rejected +
      (Standing.of (results.map (s.examiner c).judge)).failed = results.length ∧
    ((s.conclude c asJson results).exitCode = 2 ↔ SomeFailed results) ∧
    ((s.conclude c asJson results).exitCode = 1 ↔
      ¬SomeFailed results ∧ SomeRejected c.warningsAsErrors results) ∧
    ((s.conclude c asJson results).exitCode = 0 ↔
      ¬SomeFailed results ∧ ¬SomeRejected c.warningsAsErrors results) ∧
    (JsonValue.status? (s.conclude c true results).output = some "error" ↔
      SomeFailed results) ∧
    (JsonValue.status? (s.conclude c true results).output = some "rejected" ↔
      ¬SomeFailed results ∧ SomeRejected c.warningsAsErrors results) ∧
    (JsonValue.status? (s.conclude c true results).output = some "ok" ↔
      ¬SomeFailed results ∧ ¬SomeRejected c.warningsAsErrors results) ∧
    (∀ i : Invocation, s.verify i c = do
      let paths ← (s.tree.select i.arguments).mapError .selection
      if s.cancelled then .error .cancelled
      else .ok (s.conclude c (i.options.format == "json")
        (paths.map ((s.examiner c).attempt s.tree)))) := by
  have failed := s.failed_pos_iff c results
  have rejected := s.rejected_pos_iff c results
  obtain ⟨two, one, zero⟩ := three_ways failed rejected (by decide) (by decide) (by decide)
    (exitCode_verdict? (results.map (s.examiner c).judge))
  obtain ⟨error, refused, ok⟩ := three_ways failed rejected (by decide) (by decide) (by decide)
    (Examination.status?_render (results.map (s.examiner c).judge))
  refine ⟨fun path trace report => ⟨_, rfl, Examiner.accepted_iff rfl trace report⟩, ?_,
    two, one, zero, error, refused, ok, fun i => s.verify_eq_conclude i c⟩
  rw [Standing.total, List.length_map]

end Surroundings

end ResourceSafety
