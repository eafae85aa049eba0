import ResourceSafety.Proofs.Capability.Provenance
import ResourceSafety.Proofs.Capability.Simple

/-!
# The lifespan of a capability

How far a capability has come is told by a state, two consuming sites and a flag.  They agree
after every operation (`Lifecycle.Coherent`), also where any number of arms meet and some of them
do not know the capability.

What one operation makes of a lifecycle is a *turn* (`Lifecycle.Turn`).  It is an access, or it
puts the end of an arm back, or joins the ends of several.  Every turn keeps lifecycles coherent
and what is shared, and only those of the second sort leave the consumed state.

A capability has its place in the table for good, and each turn adds at most one record, with a
number that no record had before (`Binding.Turn`).  So histories are in order.
-/

namespace ResourceSafety.Capability

/-! ## Lifecycles -/

namespace Lifecycle

/-- The sites agree with the state: where the capability was consumed is known of a consumed one,
and where it may have been, of one that is in use. -/
structure Coherent (l : Lifecycle) : Prop where
  dated : l.Dated
  doubted : l.mayConsumedAt ≠ .zero → l.state = .inUse

namespace Coherent

variable {l first : Lifecycle} {rest : List Lifecycle}

theorem fresh : Coherent {} := ⟨dated_start, fun set => absurd rfl set⟩

theorem mayConsumedAt_eq_zero (h : l.Coherent) (idle : l.state ≠ .inUse) :
    l.mayConsumedAt = .zero :=
  by_contra fun set => idle (h.doubted set)

/-- One of the sites is not set. -/
theorem either (h : l.Coherent) : l.consumedAt = .zero ∨ l.mayConsumedAt = .zero := by
  by_cases consumed : l.state = .consumed
  · exact .inr (h.mayConsumedAt_eq_zero (by simp [consumed]))
  · exact .inl (h.dated.consumedAt_eq_zero consumed)

theorem rewind (h : l.Coherent) (now : Lifecycle) : (now.rewind l).Coherent :=
  ⟨h.dated.rewind now, h.doubted⟩

theorem merge (h : ∀ a ∈ first :: rest, a.Coherent) : (first.merge rest).Coherent := by
  refine ⟨dated_merge fun a ma => (h a ma).dated, ?_⟩
  simp only [Lifecycle.merge]
  split
  · exact fun set => absurd rfl set
  · split
    · exact fun _ => rfl
    next untouched =>
      -- no arm has touched it, so no arm has a site
      intro set
      refine absurd (firstSite_eq_zero fun s mem => ?_) set
      obtain ⟨a, ma, rfl⟩ := List.mem_map.mp mem
      rw [Bool.not_eq_true, List.any_eq_false] at untouched
      have fresh : a.state = .fresh := by simpa using untouched a ma
      exact (h a ma).mayConsumedAt_eq_zero (by simp [fresh])

end Coherent

/-- What an operation makes of a lifecycle.  It may have an end of an arm put back, or several
joined, and `past` holds of the ends of arms. -/
inductive Turn (past : Lifecycle → Prop) : Bool → Lifecycle → Lifecycle → Prop
  | stay {resets : Bool} (l : Lifecycle) : Turn past resets l l
  | use {l : Lifecycle} : l.state ≠ .consumed → Turn past false l { l with state := .inUse }
  | share {l : Lifecycle} : Turn past false l { l with shared := true }
  | consume {l : Lifecycle} (site : Span) : Turn past false l (l.consume site)
  | restore {l a : Lifecycle} : past a → Turn past true l (l.rewind a)
  | merge {l first : Lifecycle} {rest : List Lifecycle} : (∀ a ∈ first :: rest, past a) →
      Turn past true l (l.rewind (first.merge rest))

namespace Turn

variable {past : Lifecycle → Prop} {resets : Bool} {l l' : Lifecycle}

theorem coherent (h : Turn past resets l l') (ends : ∀ a, past a → a.Coherent)
    (before : l.Coherent) : l'.Coherent := by
  cases h with
  | stay => exact before
  | use alive => exact ⟨fun set => absurd (before.dated set) alive, fun _ => rfl⟩
  | share => exact ⟨before.dated, before.doubted⟩
  | consume site => exact ⟨fun _ => rfl, fun set => absurd rfl set⟩
  | restore known => exact (ends _ known).rewind l
  | merge known => exact (Coherent.merge fun a ma => ends a (known a ma)).rewind l

/-- What is shared stays shared. -/
theorem shared (h : Turn past resets l l') (before : l.shared = true) : l'.shared = true := by
  cases h with
  | stay | use | consume => exact before
  | share => rfl
  | restore | merge => simp [rewind, before]

/-- What is consumed stays consumed, unless an end of an arm is put back. -/
theorem consumed (h : Turn past false l l') (before : l.state = .consumed) :
    l'.state = .consumed := by
  cases h with
  | stay | share => exact before
  | use alive => exact absurd before alive
  | consume => rfl

end Turn

end Lifecycle

/-! ## Capabilities -/

/-- What an operation makes of a capability.  One more record has a number above `low` and up to
`high`. -/
structure Binding.Turn (past : Lifecycle → Prop) (resets : Bool) (low high : Nat)
    (b b' : Binding) : Prop where
  id : b'.id = b.id
  life : b.life.Turn past resets b'.life
  history : b'.history = b.history ∨
    ∃ r, b'.history = b.history ++ [r] ∧ low < r.seq ∧ r.seq ≤ high

/-- The records are in order, and none has a number above `high`. -/
structure Binding.Ordered (high : Nat) (b : Binding) : Prop where
  ordered : b.history.Pairwise (·.seq < ·.seq)
  recent : ∀ r ∈ b.history, r.seq ≤ high

namespace Binding.Turn

variable {past : Lifecycle → Prop} {resets : Bool} {low high : Nat} {b b' : Binding}

theorem stay (b : Binding) : b.Turn past resets low high b := ⟨rfl, .stay _, .inl rfl⟩

/-- A record that is made now. -/
theorem record {c : Context} {l : Lifecycle} (life : b.life.Turn past resets l)
    (kind : AccessKind) (site : Span) : b.Turn past resets c.seq (c.seq + 1)
      { b with life := l, history := b.history ++ [c.recordNow kind site] } :=
  ⟨rfl, life, .inr ⟨_, rfl, Nat.lt_succ_self _, Nat.le_refl _⟩⟩

theorem ordered (h : b.Turn past resets low high b') (le : low ≤ high) (before : b.Ordered low) :
    b'.Ordered high := by
  have recent : ∀ r ∈ b.history, r.seq ≤ high := fun r mem => (before.recent r mem).trans le
  obtain same | ⟨r, more, above, upTo⟩ := h.history
  · exact ⟨same ▸ before.ordered, same ▸ recent⟩
  · refine ⟨?_, ?_⟩
    · rw [more, List.pairwise_append]
      refine ⟨before.ordered, List.pairwise_singleton _ _, fun x mx y my => ?_⟩
      rw [List.mem_singleton.mp my]
      exact (before.recent x mx).trans_lt above
    · simpa [more, or_imp, forall_and, upTo] using recent

end Binding.Turn

/-! ## Contexts -/

namespace Context

variable {past : Lifecycle → Prop} {resets : Bool} {c c' : Context}

/-- Every capability is at the place that its number says. -/
def Enumerated (c : Context) : Prop := ∀ (i : Nat) (b : Binding), c.table[i]? = some b → b.id = i

/-- What an operation makes of a context.  Capabilities stay in their places, and new ones are
fresh. -/
structure Turns (past : Lifecycle → Prop) (resets : Bool) (c c' : Context) : Prop where
  seq : c.seq ≤ c'.seq
  old : ∀ (i : Nat) (b : Binding), c.table[i]? = some b →
    ∃ b', c'.table[i]? = some b' ∧ b.Turn past resets c.seq c'.seq b'
  new : ∀ (i : Nat) (b' : Binding), c'.table[i]? = some b' →
    (∃ b, c.table[i]? = some b) ∨ b'.id = i ∧ b'.life = {} ∧ b'.history = []

theorem Enumerated.eq_of_id (n : c.Enumerated) {x y : Binding} (mx : x ∈ c.table)
    (my : y ∈ c.table) (same : x.id = y.id) : x = y := by
  obtain ⟨i, hx⟩ := List.mem_iff_getElem?.mp mx
  obtain ⟨j, hy⟩ := List.mem_iff_getElem?.mp my
  obtain rfl : i = j := by rw [← n i x hx, ← n j y hy, same]
  exact Option.some.inj (hx.symm.trans hy)

namespace Turns

/-- Every capability has its turn. -/
theorem of_map {f : Binding → Binding} (table : c'.table = c.table.map f) (seq : c.seq ≤ c'.seq)
    (each : ∀ b ∈ c.table, b.Turn past resets c.seq c'.seq (f b)) : c.Turns past resets c' where
  seq := seq
  old i b there := by
    refine ⟨f b, ?_, each b (List.mem_of_getElem? there)⟩
    rw [table, List.getElem?_map, there, Option.map_some]
  new i b' there := by
    rw [table, List.getElem?_map, Option.map_eq_some_iff] at there
    obtain ⟨b, old, -⟩ := there
    exact .inl ⟨b, old⟩

theorem of_table (table : c'.table = c.table) (seq : c'.seq = c.seq) : c.Turns past resets c' :=
  .of_map (f := id) (by rw [table, List.map_id]) seq.ge fun b _ => .stay b

theorem exit {site : Span} {found : List Violation} (h : c.exit site = .ok (found, c')) :
    c.Turns past resets c' := by
  simp only [Context.exit] at h
  split at h
  · cases h
  · cases h
    exact .of_table rfl rfl

theorem exitThread (h : c.exitThread = .ok c') : c.Turns past resets c' := by
  simp only [Context.exitThread] at h
  split at h
  · cases h
  · cases h
    exact .of_table rfl rfl

theorem nextArm (h : c.nextArm = .ok c') : c.Turns past resets c' := by
  simp only [Context.nextArm] at h
  split at h
  · cases h
  · cases h
    exact .of_table rfl rfl

theorem define {name : String} {kind : CapabilityKind} {site : Span}
    (h : c.define name kind site = .ok c') : c.Turns past resets c' := by
  simp only [Context.define] at h
  split at h
  · cases h
  · split at h
    · cases h
    · cases h
      refine ⟨Nat.le_refl _, fun i b there => ⟨b, ?_, .stay b⟩, fun i b' there => ?_⟩
      · rw [List.getElem?_append_left (List.getElem?_eq_some_iff.mp there).1, there]
      · by_cases old : i < c.table.length
        · exact .inl ⟨_, List.getElem?_eq_getElem old⟩
        · rw [List.getElem?_append_right (Nat.le_of_not_lt old), List.getElem?_singleton] at there
          obtain rfl | later := (Nat.le_of_not_lt old).eq_or_lt
          · rw [if_pos (Nat.sub_self _)] at there
            cases there
            exact .inr ⟨rfl, rfl, rfl⟩
          · rw [if_neg (Nat.sub_ne_zero_of_lt later)] at there
            cases there

/-- A synchronization point is a record for some capabilities. -/
theorem sync (c : Context) (site : Span) : c.Turns past resets (c.sync site) := by
  refine .of_map rfl (Nat.le_succ _) fun b _ => ?_
  split
  · exact .record (.stay _) _ _
  · exact .stay b

theorem exitBranch {site : Span} (h : c.exitBranch site = .ok c') : c.Turns past resets c' := by
  simp only [Context.exitBranch] at h
  split at h
  · cases h
  next b rest _ =>
    cases h
    split
    · let outside : Context := { c with branches := rest }
      have marked : outside.Turns past resets (outside.sync site) := .sync outside site
      exact ⟨marked.seq, marked.old, marked.new⟩
    · exact .of_table rfl rfl

/-- One capability gets a record and has its turn. -/
theorem note (n : c.Enumerated) {b : Binding} (mem : b ∈ c.table) {l : Lifecycle}
    (life : b.life.Turn past resets l) (kind : AccessKind) (site : Span) :
    c.Turns past resets (c.note b l kind site).1 := by
  refine .of_map rfl (Nat.le_succ _) fun old there => ?_
  by_cases same : old.id = b.id
  · obtain rfl := n.eq_of_id there mem same
    rw [if_pos rfl]
    exact .record life kind site
  · rw [if_neg same]
    exact .stay old

/-- An access that is refused changes nothing. -/
theorem acts (n : c.Enumerated) {b : Binding} {name : String} (found : c.find? name = some b)
    {step : Lifecycle → Lifecycle} {kind : AccessKind} {site : Span} {w : Option Violation}
    (acts : c.Acts b step kind site w c')
    (life : b.life.state ≠ .consumed → b.life.Turn past resets (step b.life)) :
    c.Turns past resets c' := by
  obtain rfl | ⟨alive, rfl⟩ := acts.changed
  · exact .of_table rfl rfl
  · exact .note n (mem_table_of_find? found) (life alive) kind site

/-- The end of an arm is put back. -/
theorem restore (c : Context) {s : Snapshot} (known : ∀ x ∈ s, past x.2) :
    c.Turns past true (c.restore s) := by
  refine .of_map rfl (Nat.le_refl _) fun b _ => ?_
  cases look : s.lookup b.id with
  | none => exact .stay b
  | some a => exact ⟨rfl, .restore (known _ (Cells.mem_of_lookup look)), .inl rfl⟩

/-- Arms meet. -/
theorem merge (c : Context) {arms : List Snapshot} (known : ∀ s ∈ arms, ∀ x ∈ s, past x.2) :
    c.Turns past true (c.merge arms) := by
  cases arms with
  | nil => exact .of_table rfl rfl
  | cons first rest =>
    refine .of_map rfl (Nat.le_refl _) fun b _ => ?_
    cases look : first.lookup b.id with
    | none => exact .stay b
    | some a =>
      refine ⟨rfl, .merge fun x mem => ?_, .inl rfl⟩
      obtain rfl | later := List.mem_cons.mp mem
      · exact known first List.mem_cons_self _ (Cells.mem_of_lookup look)
      · obtain ⟨s, ms, look⟩ := List.mem_filterMap.mp later
        exact known s (List.mem_cons_of_mem _ ms) _ (Cells.mem_of_lookup look)

/-! ### What turns keep -/

theorem enumerated (h : c.Turns past resets c') (n : c.Enumerated) : c'.Enumerated := by
  intro i b' there
  obtain ⟨b, old⟩ | ⟨id, -⟩ := h.new i b' there
  · obtain ⟨b₁, there₁, turn⟩ := h.old i b old
    obtain rfl : b₁ = b' := Option.some.inj (there₁.symm.trans there)
    exact turn.id.trans (n i b old)
  · exact id

/-- What new capabilities have, and what every turn keeps, all capabilities have. -/
theorem forall_mem {P Q : Binding → Prop} (h : c.Turns past resets c')
    (before : ∀ b ∈ c.table, P b) (fresh : ∀ b, b.life = {} → b.history = [] → Q b)
    (keep : ∀ b b', P b → b.Turn past resets c.seq c'.seq b' → Q b') : ∀ b' ∈ c'.table, Q b' := by
  intro b' mem
  obtain ⟨i, there⟩ := List.mem_iff_getElem?.mp mem
  obtain ⟨b, old⟩ | ⟨-, life, history⟩ := h.new i b' there
  · obtain ⟨b₁, there₁, turn⟩ := h.old i b old
    obtain rfl : b₁ = b' := Option.some.inj (there₁.symm.trans there)
    exact keep b b₁ (before b (List.mem_of_getElem? old)) turn
  · exact fresh b' life history

end Turns

end Context

/-! ## Chronicles -/

/-- Ends of arms are put back or joined. -/
def Operation.resets : Operation → Bool
  | .restore _ | .merge _ => true
  | _ => false

namespace Chronicle

variable {k : Chronicle} {l : Lifecycle} {b : Binding}

/-- The lifecycle is in a snapshot. -/
def Past (k : Chronicle) (l : Lifecycle) : Prop := ∃ s ∈ k.snapshots, ∃ x ∈ s, x.2 = l

theorem past_of_taken {index : Nat} : ∀ x ∈ k.taken index, k.Past x.2 := by
  intro x mem
  obtain ⟨s, ms, there⟩ := Cells.exists_of_mem_getD mem
  exact ⟨s, ms, x, there, rfl⟩

/-- What an operation makes of the context, one case for each. -/
theorem turns_step (n : k.context.Enumerated) (o : Operation) :
    k.context.Turns k.Past o.resets (k.step o).context := by
  simp only [Chronicle.step]
  split
  · exact .of_table rfl rfl
  next vs c answered =>
    cases o with
    | enter | enterThread | enterBranch | validate | snapshot =>
      cases answered
      exact .of_table rfl rfl
    | exit site => exact .exit answered
    | exitThread =>
      obtain ⟨hc, -⟩ := Context.ok_of_map_nil answered
      exact .exitThread hc
    | nextArm =>
      obtain ⟨hc, -⟩ := Context.ok_of_map_nil answered
      exact .nextArm hc
    | exitBranch site =>
      obtain ⟨hc, -⟩ := Context.ok_of_map_nil answered
      exact .exitBranch hc
    | define name kind site =>
      obtain ⟨hc, -⟩ := Context.ok_of_map_nil answered
      exact .define hc
    | use name site =>
      obtain ⟨b, w, found, -, acts⟩ := Context.accesses_use.acts_of_map answered
      exact .acts n found acts .use
    | consume name site =>
      obtain ⟨b, w, found, -, acts⟩ := Context.accesses_consume.acts_of_map answered
      exact .acts n found acts fun _ => .consume site
    | share name site =>
      obtain ⟨b, w, found, -, acts⟩ := Context.accesses_share.acts_of_map answered
      exact .acts n found acts fun _ => .share
    | note name kind site =>
      obtain ⟨hc, -⟩ := Context.ok_of_map_nil answered
      obtain ⟨b, found, rfl⟩ := Context.remark_ok hc
      exact .note n (Context.mem_table_of_find? found) (.stay _) kind site
    | sync site =>
      cases answered
      exact .sync _ site
    | restore index =>
      cases answered
      exact .restore _ past_of_taken
    | merge arms =>
      cases answered
      refine .merge _ fun s mem => ?_
      obtain ⟨index, -, rfl⟩ := List.mem_map.mp mem
      exact past_of_taken

/-- A lifecycle gets into a snapshot from the context. -/
theorem past_step {o : Operation} (h : (k.step o).Past l) :
    k.Past l ∨ ∃ b ∈ k.context.table, b.life = l := by
  simp only [Chronicle.step] at h
  split at h
  · exact .inl h
  next vs c answered =>
    obtain ⟨s, mem, x, mx, rfl⟩ := h
    obtain old | new := List.mem_append.mp mem
    · exact .inl ⟨s, old, x, mx, rfl⟩
    · cases o with
      | snapshot =>
        rw [List.mem_singleton.mp new] at mx
        obtain ⟨b, known, rfl⟩ := List.mem_map.mp mx
        exact .inr ⟨b, List.mem_of_mem_filter known, rfl⟩
      | _ => cases new

/-- Lifecycles are coherent, and histories in order. -/
structure Sound (k : Chronicle) : Prop where
  enumerated : k.context.Enumerated
  coherent : ∀ b ∈ k.context.table, b.life.Coherent
  past : ∀ l, k.Past l → l.Coherent
  ordered : ∀ b ∈ k.context.table, b.Ordered k.context.seq

/-- Every operation keeps the chronicle sound. -/
theorem Sound.step (h : k.Sound) (o : Operation) : (k.step o).Sound := by
  have turns := turns_step h.enumerated o
  refine ⟨turns.enumerated h.enumerated, ?_, fun l known => ?_, ?_⟩
  · exact turns.forall_mem h.coherent (fun b life _ => life ▸ .fresh)
      fun b b' before turn => turn.life.coherent h.past before
  · obtain old | ⟨b, mem, rfl⟩ := past_step known
    · exact h.past l old
    · exact h.coherent b mem
  · exact turns.forall_mem h.ordered (fun b _ history => ⟨by simp [history], by simp [history]⟩)
      fun b b' before turn => turn.ordered turns.seq before

theorem sound_run (strict : Bool) (os : List Operation) : (run strict os).Sound := by
  have start : Sound { context := .empty strict } :=
    ⟨fun _ _ there => by simp [Context.empty] at there, fun _ mem => absurd mem List.not_mem_nil,
      fun _ ⟨_, mem, _⟩ => absurd mem List.not_mem_nil, fun _ mem => absurd mem List.not_mem_nil⟩
  exact List.foldlRecOn os Chronicle.step start fun _ sound o _ => sound.step o

theorem run_concat (strict : Bool) (os : List Operation) (o : Operation) :
    run strict (os ++ [o]) = (run strict os).step o := by
  rw [run, List.foldl_append]
  rfl

/-- Whatever is done with a context, the parts of each lifecycle agree and each history is in
order.  Whatever is done later, the capability keeps its place, it stays shared once it is, and
it stays consumed as long as no end of an arm is put back or joined. -/
theorem lifespan_run (strict : Bool) (os more : List Operation) {i : Nat} {b : Binding}
    (there : (run strict os).context.table[i]? = some b) :
    (b.life.consumedAt ≠ .zero → b.life.state = .consumed) ∧
    (b.life.mayConsumedAt ≠ .zero → b.life.state = .inUse) ∧
    (b.life.consumedAt = .zero ∨ b.life.mayConsumedAt = .zero) ∧
    b.history.Pairwise (·.seq < ·.seq) ∧
    ∃ b', (run strict (os ++ more)).context.table[i]? = some b' ∧ b'.id = b.id ∧
      (b.life.shared = true → b'.life.shared = true) ∧
      (b.life.state = .consumed → b'.life.state ≠ .consumed → ∃ o ∈ more, o.resets = true) := by
  have sound := sound_run strict os
  have mem := List.mem_of_getElem? there
  have coherent := sound.coherent b mem
  refine ⟨coherent.dated, coherent.doubted, coherent.either, (sound.ordered b mem).ordered, ?_⟩
  induction more using List.reverseRecOn with
  | nil => exact ⟨b, by rwa [List.append_nil], rfl, id, fun consumed left => absurd consumed left⟩
  | append_singleton more o ih =>
    obtain ⟨b₁, there₁, id₁, shared₁, left₁⟩ := ih
    obtain ⟨b₂, there₂, turn⟩ :=
      (turns_step (sound_run strict (os ++ more)).enumerated o).old i b₁ there₁
    rw [← run_concat, List.append_assoc] at there₂
    refine ⟨b₂, there₂, turn.id.trans id₁, fun was => turn.life.shared (shared₁ was),
      fun was left => ?_⟩
    by_cases still : b₁.life.state = .consumed
    · -- it was left just now
      refine ⟨o, by simp, by_contra fun other => left ?_⟩
      rw [Bool.not_eq_true] at other
      exact (other ▸ turn.life).consumed still
    · obtain ⟨o', mo, resets⟩ := left₁ was still
      exact ⟨o', List.mem_append_left _ mo, resets⟩

/-- `a` is consumed on one of two arms, and may be consumed where they meet.  Then `b` is shared
and consumed.  Putting the beginning back makes it fresh again, but it stays shared. -/
theorem lifespan_run_putBack :
    let site (line : Int64) := Span.point "" line 1
    let os : List Operation := [.define "a" .socket (site 1), .define "b" .socket (site 2),
      .snapshot, .consume "a" (site 3), .snapshot, .restore 0, .use "a" (site 4), .snapshot,
      .merge [1, 2], .share "b" (site 5), .consume "b" (site 6)]
    let more : List Operation := [.consume "b" (site 7), .restore 0]
    (∃ a : Binding, (run false os).context.table[0]? = some a ∧ a.life.mayConsumedAt = site 3 ∧
      a.life.state = .inUse ∧ a.life.consumedAt = .zero ∧
      a.history.Pairwise (·.seq < ·.seq)) ∧
    ∃ b b' : Binding, (run false os).context.table[1]? = some b ∧ b.life.consumedAt = site 6 ∧
      b.life.state = .consumed ∧ (run false (os ++ more)).context.table[1]? = some b' ∧
      b'.life.state = .fresh ∧ b'.life.shared = true ∧ ∃ o ∈ more, o.resets = true := by
  intro site os more
  constructor
  · obtain ⟨a, there, doubt⟩ : ∃ a ∈ (run false os).context.table[0]?,
        a.life.mayConsumedAt = site 3 := by
      decide +kernel
    obtain ⟨-, inUse, either, ordered, -⟩ := lifespan_run false os more there
    have set : a.life.mayConsumedAt ≠ .zero := by rw [doubt]; decide
    exact ⟨a, there, doubt, inUse set, either.resolve_right set, ordered⟩
  · obtain ⟨b, there, site6, shared⟩ : ∃ b ∈ (run false os).context.table[1]?,
        b.life.consumedAt = site 6 ∧ b.life.shared = true := by
      decide +kernel
    obtain ⟨consumed, -, -, -, b', there', -, shared', left⟩ := lifespan_run false os more there
    have was := consumed (by rw [site6]; decide)
    have fresh : ∀ x ∈ (run false (os ++ more)).context.table[1]?, x.life.state = .fresh := by
      decide +kernel
    have now := fresh b' there'
    exact ⟨b, b', there, site6, was, there', now, shared' shared, left was (by simp [now])⟩

end Chronicle

end ResourceSafety.Capability
