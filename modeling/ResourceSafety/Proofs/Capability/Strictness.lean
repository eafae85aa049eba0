import ResourceSafety.Proofs.Capability.Requests
import ResourceSafety.Proofs.Capability.Sharing

/-!
# Strict contexts

A strict context does what the same context does that is not strict, findings apart: it may add
a race to the answer of an access (`Heightens`), and leaves the races out where a frame closes
(`exit_strictly`).
-/

namespace ResourceSafety.Capability.Context

variable {c c' : Context} {name : String} {v : Violation}

/-- The context with races looked for at every access. -/
def strictly (c : Context) : Context := { c with strict := true }

/-! ## Requests without findings -/

theorem find?_strictly (c : Context) (name : String) : c.strictly.find? name = c.find? name := rfl

theorem define_strictly (c : Context) (name : String) (kind : CapabilityKind) (site : Span) :
    c.strictly.define name kind site = (c.define name kind site).map strictly := by
  have same : c.strictly.frames = c.frames := rfl
  simp only [define, same]
  cases c.frames with
  | nil => rfl
  | cons f rest =>
    have names : c.strictly.inFrame f = c.inFrame f := rfl
    simp only [names]
    cases (c.inFrame f).any (·.name == name) <;> rfl

theorem exitThread_strictly (c : Context) :
    c.strictly.exitThread = c.exitThread.map strictly := by
  have same : c.strictly.outerThreads = c.outerThreads := rfl
  simp only [exitThread, same]
  cases c.outerThreads <;> rfl

theorem nextArm_strictly (c : Context) : c.strictly.nextArm = c.nextArm.map strictly := by
  have same : c.strictly.branches = c.branches := rfl
  simp only [nextArm, same]
  cases c.branches <;> rfl

theorem exitBranch_strictly (c : Context) (site : Span) :
    c.strictly.exitBranch site = (c.exitBranch site).map strictly := by
  have same : c.strictly.branches = c.branches := rfl
  simp only [exitBranch, same]
  cases c.branches with
  | nil => rfl
  | cons b rest =>
    simp only [Except.map]
    split <;> rfl

theorem remark_strictly (c : Context) (name : String) (kind : AccessKind) (site : Span) :
    c.strictly.remark name kind site = (c.remark name kind site).map strictly := by
  simp only [remark, lookup, find?_strictly]
  cases c.find? name <;> rfl

theorem merge_strictly (c : Context) (arms : List Snapshot) :
    c.strictly.merge arms = (c.merge arms).strictly := by
  cases arms <;> rfl

/-! ## Accesses -/

theorem Evolves.remark (n : c.Numbered) {kind : AccessKind} {site : Span}
    (other : (kind == .share) = false) (h : c.remark name kind site = .ok c') : c.Evolves c' := by
  obtain ⟨b, found, rfl⟩ := remark_ok h
  exact .note n (mem_table_of_find? found) (frame_mem_of_find? found) (by rw [other, Bool.or_false])

/-- The race that a strict context finds at an access is suspected. -/
theorem Told.suspects_of_eager {b : Binding} (h : c.Told) (mem : b ∈ c.table)
    (race : c.strictly.eager b = some v) : c.Suspects v := by
  simp only [eager] at race
  split at race
  next looks =>
    have unshared : b.life.shared = false := by simpa [strictly] using looks
    refine ⟨b, mem, ?_⟩
    rw [beforeSharing_eq (h.shared b mem ▸ unshared)]
    exact mem_races_of_latestRace? race
  next => cases race

/-- The answers of one access in the two modes.  Where the other has none, the strict one may be a
race. -/
def Heightened (c : Context) (w w' : Option Violation) : Prop :=
  w' = w ∨ w = none ∧ ∃ v, w' = some v ∧ c.Suspects v

/-- In a strict context the operation does the same, and its answer is heightened. -/
def Heightens (op : Context → String → Span → Except Fault (Option Violation × Context)) : Prop :=
  ∀ {c : Context} (name : String) (site : Span), c.Told → c.strict = false →
    (∃ fault, op c name site = .error fault ∧ op c.strictly name site = .error fault) ∨
    ∃ w w' c', op c name site = .ok (w, c') ∧ op c.strictly name site = .ok (w', c'.strictly) ∧
      c.Evolves c' ∧ c'.Heightened w w'

/-- After an accepted access the strict context looks for races, unless there is an answer. -/
theorem Told.heightened (h : c.Told) (lax : c.strict = false) {b : Binding} (mem : b ∈ c.table)
    (w : Option Violation) : c.Heightened (w <|> c.eager b) (w <|> c.strictly.eager b) := by
  have silent : c.eager b = none := by simp [eager, lax]
  rw [silent]
  cases w with
  | some w => exact .inl rfl
  | none =>
    cases race : c.strictly.eager b with
    | none => exact .inl rfl
    | some v => exact .inr ⟨rfl, v, rfl, h.suspects_of_eager mem race⟩

/-- An access that is recorded. -/
theorem heightened_note (told : c.Told) (lax : c.strict = false) {b : Binding}
    (found : c.find? name = some b) (life : Lifecycle) (kind : AccessKind) (site : Span)
    (shared : life.shared = (b.life.shared || kind == .share)) (w : Option Violation) :
    c.Evolves (c.note b life kind site).1 ∧ (c.note b life kind site).1.Heightened
      (w <|> (c.note b life kind site).1.eager (c.note b life kind site).2)
      (w <|> (c.note b life kind site).1.strictly.eager (c.note b life kind site).2) := by
  have mem := mem_table_of_find? found
  have evolves : c.Evolves (c.note b life kind site).1 :=
    .note told.numbered mem (frame_mem_of_find? found) shared
  refine ⟨evolves, (told.evolve evolves).heightened lax ?_ w⟩
  exact List.mem_map.mpr ⟨b, mem, if_pos rfl⟩

theorem heightens_use : Heightens use := by
  intro c name site told lax
  cases found : c.find? name with
  | none => exact .inl ⟨_, accesses_use.missing site found, accesses_use.missing site found⟩
  | some b =>
    have strict : c.strictly.lookup name = .ok b := lookup_eq found
    simp only [use, lookup_eq found, strict, bind, Except.bind]
    cases b.life.refusal? name site "" with
    | some w => exact .inr ⟨_, _, _, rfl, rfl, .refl c, .inl rfl⟩
    | none =>
      obtain ⟨evolves, heightened⟩ := heightened_note told lax found
        { b.life with state := .inUse } .use site (Bool.or_false _).symm none
      exact .inr ⟨_, _, _, rfl, rfl, evolves, heightened⟩

theorem heightens_consume : Heightens consume := by
  intro c name site told lax
  cases found : c.find? name with
  | none => exact .inl ⟨_, accesses_consume.missing site found, accesses_consume.missing site found⟩
  | some b =>
    have strict : c.strictly.lookup name = .ok b := lookup_eq found
    simp only [consume, lookup_eq found, strict, bind, Except.bind]
    by_cases consumed : b.life.state = .consumed
    · rw [if_pos consumed, if_pos consumed]
      exact .inr ⟨_, _, _, rfl, rfl, .refl c, .inl rfl⟩
    · rw [if_neg consumed, if_neg consumed]
      obtain ⟨evolves, heightened⟩ := heightened_note told lax found
        (b.life.consume site) .consume site (Bool.or_false _).symm
        (b.life.refusal? name site "")
      exact .inr ⟨_, _, _, rfl, rfl, evolves, heightened⟩

theorem heightens_share : Heightens share := by
  intro c name site told lax
  cases found : c.find? name with
  | none => exact .inl ⟨_, accesses_share.missing site found, accesses_share.missing site found⟩
  | some b =>
    have strict : c.strictly.lookup name = .ok b := lookup_eq found
    simp only [share, lookup_eq found, strict, bind, Except.bind]
    cases b.life.refusal? name site "shared after consumption" with
    | some w => exact .inr ⟨_, _, _, rfl, rfl, .refl c, .inl rfl⟩
    | none =>
      obtain ⟨evolves, -⟩ := heightened_note told lax found
        { b.life with shared := true } .share site (Bool.or_true _).symm none
      exact .inr ⟨_, _, _, rfl, rfl, evolves, .inl rfl⟩

/-! ## Frames -/

/-- Where a frame closes, only the context that is not strict reports its races. -/
theorem exit_strictly (n : c.Numbered) (lax : c.strict = false) (site : Span) :
    (∃ fault, c.exit site = .error fault ∧ c.strictly.exit site = .error fault) ∨
    ∃ leaks found c', c.exit site = .ok (leaks ++ found, c') ∧
      c.strictly.exit site = .ok (leaks, c'.strictly) ∧ ∀ v ∈ found, c'.Closes v := by
  have same : c.strictly.frames = c.frames := rfl
  simp only [exit, same]
  cases frames : c.frames with
  | nil => exact .inl ⟨_, rfl, rfl⟩
  | cons f rest =>
    refine .inr ⟨_, _, _, rfl, ?_, fun v mem => ?_⟩
    · simp only [strictly, if_true, List.append_nil]
      rfl
    · simp only [lax, Bool.false_eq_true, if_false] at mem
      obtain ⟨b, inside, race⟩ := List.mem_flatMap.mp mem
      obtain ⟨mem, here⟩ := List.mem_filter.mp inside
      refine ⟨b, mem, ?_, race⟩
      rw [beq_iff_eq.mp here]
      exact (List.nodup_cons.mp (frames ▸ n.frames)).1

end ResourceSafety.Capability.Context
