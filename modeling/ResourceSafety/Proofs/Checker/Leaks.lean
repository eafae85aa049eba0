import ResourceSafety.Proofs.Checker.Lockstep
import ResourceSafety.Proofs.Discharge.Queue
import ResourceSafety.Proofs.Trace.Soundness
import ResourceSafety.Proofs.Violation

/-!
# Leaks at the end of a unit

Finishing a unit closes its open scopes from the inside.  A frame that closes reports
its capabilities that are not consumed.  A function that closes decides the queued
obligations first, and a fault there stops the closing: after it only one more frame is
closed, in place of the outermost one.

So a capability of an open frame is reported when it belongs to the innermost body, or
when the queued obligations can be decided without a fault (`finish_reports_leaks`).
One of an outer body goes unreported when they cannot (`leak_unreported_after_fault`).

A unit *owes* the report of such a capability (`CompilationUnit.Owes`).  Each closing
keeps that (`Lockstep.owes_closeBlock`, `Lockstep.owes_endFunction`), and so do all of
them (`Lockstep.settles_closeScopes`).
-/

namespace ResourceSafety

open Logic (Action Solver)

/-! ## Findings of a frame -/

namespace Capability.Context

/-- A frame that closes reports its capabilities that are not consumed. -/
theorem exists_exit {c : Context} {f : Nat} {rest : List Nat} (frames : c.frames = f :: rest)
    (site : Span) : ∃ found, c.exit site = .ok (found, { c with frames := rest }) ∧
      ∀ b ∈ c.table, b.frame = f → b.life.state ≠ .consumed → leak b site ∈ found := by
  rw [exit, frames]
  refine ⟨_, rfl, fun b mem here unconsumed => List.mem_append_left _ (List.mem_map_of_mem ?_)⟩
  rw [List.mem_filter, inFrame, List.mem_filter]
  exact ⟨⟨mem, beq_iff_eq.mpr here⟩, bne_iff_ne.mpr unconsumed⟩

/-- A finding with the key of a leak is about a leak.  It has the name and the place of the
capability, as long as these are written without bars. -/
theorem leak_of_key_eq {v : Violation} {b : Binding} {site : Span}
    (h : v.key = (leak b site).key) : v.kind = .resourceLeak ∧
      ((leak b site).Legible → v.binding = b.name ∧
        (b.definedAt.isValid = true → v.conflict.map Span.render = some b.definedAt.render)) := by
  refine ⟨Violation.kind_eq_of_key_eq h, fun legible => ?_⟩
  have parts := Violation.parts_eq_of_key_eq legible h
  simp only [Violation.parts, List.cons.injEq] at parts
  obtain ⟨-, binding, -, conflict, -⟩ := parts
  refine ⟨binding, fun valid => ?_⟩
  have place : (leak b site).conflict = some b.definedAt := by simp [leak, Violation.against, valid]
  rw [place] at conflict
  cases earlier : v.conflict with
  | none =>
      rw [earlier] at conflict
      exact absurd conflict.symm b.definedAt.render_ne_empty
  | some c =>
      rw [earlier] at conflict
      exact congrArg some conflict

end Capability.Context

namespace CompilationUnit

variable {σ : Type} {u v : CompilationUnit σ} {j : Journal} {b : Capability.Binding}

/-- A finding with the key of the leak of a capability was collected. -/
def Tells (u : CompilationUnit σ) (b : Capability.Binding) : Prop :=
  ∃ v ∈ u.violations, ∃ site, v.key = (Capability.Context.leak b site).key

theorem Tells.collectAll (h : u.Tells b) (found : List Violation) : (u.collectAll found).Tells b := by
  obtain ⟨v, mem, site, key⟩ := h
  obtain ⟨w, mem', key'⟩ := exists_key_collectAll.mpr (.inl ⟨v, mem, rfl⟩ : _ ∨ ∃ x ∈ found, _)
  exact ⟨w, mem', site, key'.trans key⟩

theorem tells_of_mem {found : List Violation} {site : Span}
    (mem : Capability.Context.leak b site ∈ found) : (u.collectAll found).Tells b := by
  obtain ⟨w, mem', key⟩ := (exists_key_collectAll (u := u)).mpr (.inr ⟨_, mem, rfl⟩)
  exact ⟨w, mem', site, key⟩

/-- The innermost frame was closed: its capabilities that are not consumed are reported, and
nothing that was reported is forgotten. -/
structure ClosesFrame (u v : CompilationUnit σ) : Prop where
  frames : v.capabilities.frames = u.capabilities.frames.tail
  table : v.capabilities.table = u.capabilities.table
  keeps : ∀ b, u.Tells b → v.Tells b
  leaks : ∀ b ∈ u.capabilities.table, b.frame ∈ u.capabilities.frames.take 1 →
    b.life.state ≠ .consumed → v.Tells b

theorem ClosesFrame.keeps_or_leaks (h : u.ClosesFrame v) (mem : b ∈ u.capabilities.table)
    (unconsumed : b.life.state ≠ .consumed) {n : Nat}
    (open_ : b.frame ∈ u.capabilities.frames.take (n + 1)) :
    v.Tells b ∨ b.frame ∈ v.capabilities.frames.take n := by
  cases frames : u.capabilities.frames with
  | nil =>
      rw [frames] at open_
      cases open_
  | cons f rest =>
      rw [frames, List.take_succ_cons, List.mem_cons] at open_
      obtain here | outer := open_
      · refine .inl (h.leaks b mem ?_ unconsumed)
        rw [frames]
        exact List.mem_singleton.mpr here
      · refine .inr ?_
        rw [h.frames, frames]
        exact outer

theorem exists_closesFrame {f : Nat} {rest : List Nat} (frames : u.capabilities.frames = f :: rest)
    (site : Span) : ∃ found v, (leaveFrame site).run u = ((found, none), v) ∧ u.ClosesFrame v ∧
      v.discharger = u.discharger := by
  obtain ⟨found, exits, leaks⟩ := Capability.Context.exists_exit frames site
  have told (b : Capability.Binding) (h : u.Tells b) :
      Tells { u with capabilities := { u.capabilities with frames := rest } } b := h
  refine ⟨found, collectAll { u with capabilities := { u.capabilities with frames := rest } } found,
    ?_, ⟨?_, ?_, fun b h => (told b h).collectAll found, fun b mem here unconsumed => ?_⟩, ?_⟩
  · rw [leaveFrame, run_get_bind, exits]
    rfl
  · rw [collectAll_eq, frames]
    rfl
  · rw [collectAll_eq]
  · rw [frames] at here
    exact tells_of_mem (leaks b mem (List.mem_singleton.mp here) unconsumed)
  · rw [collectAll_eq]

theorem Lockstep.closesFrame_closeBlock (h : u.Lockstep j) (site : Span) {k : Block}
    {blocks : List Block} (open_ : u.current.blocks = k :: blocks) : ∃ found v,
      (CompilationUnit.closeBlock site).run u = ((found, none), v) ∧ u.ClosesFrame v ∧
        v.discharger = u.discharger := by
  obtain ⟨p, -, -, describes, -⟩ := h.exists_page
  obtain ⟨tracker, exits, -⟩ := describes.exit open_
  obtain ⟨f, rest, frames⟩ := h.exists_frame
  have changed : ∃ w, w = u.changeCurrent ({ · with tracker, blocks }) ∧
      w.capabilities = u.capabilities ∧ w.violations = u.violations ∧
      w.discharger = u.discharger := by
    refine ⟨_, rfl, ?_, ?_, ?_⟩ <;> cases functions : u.functions <;> simp [changeCurrent, functions]
  obtain ⟨w, eq, capabilities, violations, discharger⟩ := changed
  obtain ⟨found, v, left, closes, same⟩ := exists_closesFrame (capabilities ▸ frames) site
  refine ⟨found, v, ?_, ⟨?_, ?_, fun b told => ?_, ?_⟩, same.trans discharger⟩
  · rw [CompilationUnit.closeBlock, run_get_bind]
    simp only [open_, exits]
    rw [← eq]
    exact left
  · rw [closes.frames, capabilities]
  · rw [closes.table, capabilities]
  · exact closes.keeps b (by rw [Tells, violations]; exact told)
  · rw [← capabilities]
    exact closes.leaks

/-! ## Closing all scopes -/

variable [Solver σ]

/-- The queued obligations can be decided where the innermost function is closed, after its
blocks. -/
def Decidable (gaveUp : Nat → Nat → Bool) (u : CompilationUnit σ) : Prop :=
  ((Discharger.flush (gaveUp (u.scopeCount - u.current.blocks.length))).run u.discharger).1.2 = none

/-- The capability is reported already or will be: it belongs to the innermost body, or to any
open one when the queued obligations can be decided. -/
def Owes (gaveUp : Nat → Nat → Bool) (u : CompilationUnit σ) (b : Capability.Binding) : Prop :=
  u.Tells b ∨ b ∈ u.capabilities.table ∧
    (b.frame ∈ u.capabilities.frames.take (u.current.blocks.length + 1) ∨
      u.Decidable gaveUp ∧ b.frame ∈ u.capabilities.frames)

/-- The capability is reported already or belongs to the innermost frame. -/
def Settles (u : CompilationUnit σ) (b : Capability.Binding) : Prop :=
  u.Tells b ∨ b ∈ u.capabilities.table ∧ b.frame ∈ u.capabilities.frames.take 1

/-- Deciding the queue does not touch the capabilities, and forgets no finding. -/
theorem exists_flushQueue (gaveUp : Nat → Bool) (u : CompilationUnit σ) :
    ∃ found fault v, (flushQueue gaveUp).run u = ((found, fault), v) ∧
      v.capabilities = u.capabilities ∧ (∀ b, u.Tells b → v.Tells b) ∧
      fault = ((Discharger.flush gaveUp).run u.discharger).1.2 ∧
      (fault = none → v.discharger.queue = []) ∧ (∀ j, u.Lockstep j → v.Lockstep j) ∧
      v.current = u.current ∧ v.functions = u.functions := by
  obtain ⟨started, found, fault, d, flushed, works, ends, -⟩ :=
    Discharger.exists_works gaveUp u.discharger
  refine ⟨found, fault, collectAll { u with discharger := d } found, ?_, ?_, fun b told => ?_, ?_,
    fun none => ?_, fun j lock => lock.aside d found, ?_, ?_⟩
  · rw [flushQueue, run_get_bind, flushed]
    rfl
  · rw [collectAll_eq]
  · have told' : Tells { u with discharger := d } b := told
    exact told'.collectAll found
  · rw [flushed]
  · rw [collectAll_eq]
    subst none
    cases ends with
    | finished decided queue => exact queue
  · rw [collectAll_eq]
    rfl
  · rw [collectAll_eq]

theorem Lockstep.owes_closeBlock (h : u.Lockstep j) (gaveUp : Nat → Nat → Bool) (site : Span) {k : Block}
    {blocks : List Block} (open_ : u.current.blocks = k :: blocks) : ∃ found v,
      (CompilationUnit.closeBlock site).run u = ((found, none), v) ∧
      (∃ j', v.Lockstep j') ∧ v.scopeCount + 1 = u.scopeCount ∧
      ∀ b, b.life.state ≠ .consumed → u.Owes gaveUp b → v.Owes gaveUp b := by
  obtain ⟨found, v, closed, lock, left⟩ := h.closeBlock site open_
  obtain ⟨found', v', closed', closes, discharger⟩ := h.closesFrame_closeBlock site open_
  cases closed.symm.trans closed'
  have fewer : v.scopeCount + 1 = u.scopeCount := by
    obtain ⟨f, rest, frames⟩ := h.exists_frame
    rw [← lock.frames, ← h.frames, closes.frames, frames]
    rfl
  refine ⟨found, v, closed, ⟨_, lock⟩, fewer, ?_⟩
  · rintro b unconsumed (told | ⟨mem, open_' | ⟨idle, open_'⟩⟩)
    · exact .inl (closes.keeps b told)
    · rw [open_, List.length_cons] at open_'
      refine (closes.keeps_or_leaks mem unconsumed open_').imp_right fun outer => ?_
      refine ⟨closes.table ▸ mem, .inl ?_⟩
      rw [left]
      exact outer
    · have all : b.frame ∈ u.capabilities.frames.take (u.capabilities.frames.length + 1) := by
        rwa [List.take_of_length_le (Nat.le_succ _)]
      refine (closes.keeps_or_leaks mem unconsumed all).imp_right fun outer => ?_
      refine ⟨closes.table ▸ mem, .inr ⟨?_, List.mem_of_mem_take outer⟩⟩
      -- a block and a scope fewer: the function is closed with as many scopes to go
      have same : v.scopeCount - v.current.blocks.length =
          u.scopeCount - u.current.blocks.length := by
        rw [left, open_, List.length_cons]
        omega
      rw [Decidable, same, discharger]
      exact idle

omit [Solver σ] in
theorem Lockstep.closesFrame_leaveFunction (h : u.Lockstep j) (site : Span)
    (closed : u.current.blocks = []) (inside : u.functions ≠ []) : ∃ found v,
      (Sweep.andThen (leaveFrame site) (dropFunction site)).run u = ((found, none), v) ∧
      (∃ j', v.Lockstep j') ∧ u.ClosesFrame v ∧ v.discharger = u.discharger := by
  obtain ⟨found, v, run, lock⟩ := h.leaveFunction site closed inside
  obtain ⟨f, rest, frames⟩ := h.exists_frame
  obtain ⟨early, w, left, closes, discharger⟩ := exists_closesFrame frames site
  have dropped : ∃ x, (dropFunction site).run w = (([], none), x) ∧
      x.capabilities = w.capabilities ∧ x.violations = w.violations ∧
      x.discharger = w.discharger := by
    refine ⟨_, rfl, ?_, ?_, ?_⟩ <;> cases functions : w.functions <;> simp [functions]
  obtain ⟨x, dropped, capabilities, violations, same⟩ := dropped
  cases run.symm.trans (run_andThen left dropped)
  refine ⟨_, _, run, ⟨_, lock⟩, ⟨?_, ?_, fun b told => ?_, fun b mem here unconsumed => ?_⟩,
    same.trans discharger⟩
  · rw [capabilities, closes.frames]
  · rw [capabilities, closes.table]
  · rw [Tells, violations]
    exact closes.keeps b told
  · rw [Tells, violations]
    exact closes.leaks b mem here unconsumed

/-- A function without open blocks is closed, or the queued obligations cannot be decided and it
stays open. -/
theorem Lockstep.owes_endFunction (h : u.Lockstep j) (gaveUp : Nat → Nat → Bool) (site : Span)
    (closed : u.current.blocks = []) {f : Body} {others : List Body}
    (functions : u.functions = f :: others) : ∃ found fault v,
      (CompilationUnit.endFunction (gaveUp u.scopeCount) site).run u = ((found, fault), v) ∧
      (∃ j', v.Lockstep j') ∧
      match fault with
      | none => v.scopeCount + 1 = u.scopeCount ∧
          ∀ b, b.life.state ≠ .consumed → u.Owes gaveUp b → v.Owes gaveUp b
      | some _ => ∀ b, u.Owes gaveUp b → v.Settles b := by
  obtain ⟨early, fault, w, flushed, capabilities, keeps, verdict, idle, lock, current, open_⟩ :=
    exists_flushQueue (gaveUp u.scopeCount) u
  rw [CompilationUnit.endFunction, run_get_bind, if_neg (by simp [h.live])]
  simp only [functions]
  cases fault with
  | some fault =>
      refine ⟨_, _, w, run_andThen_fault flushed, ⟨j, lock j h⟩, ?_⟩
      rintro b (told | ⟨mem, here | ⟨decided, -⟩⟩)
      · exact .inl (keeps b told)
      · rw [closed] at here
        exact .inr ⟨capabilities ▸ mem, capabilities ▸ here⟩
      · rw [Decidable, closed, List.length_nil, Nat.sub_zero, ← verdict] at decided
        cases decided
  | none =>
      have blocks : f.blocks = [] := by simpa [CompilationUnit.current, functions] using closed
      rw [blocks]
      have nothing : (CompilationUnit.closeBlocks site []).run w = (([], none), w) := rfl
      obtain ⟨late, v, left, ⟨j', lock'⟩, closes, discharger⟩ :=
        (lock j h).closesFrame_leaveFunction site (current ▸ closed) (by simp [open_, functions])
      refine ⟨_, none, v, run_andThen flushed (run_andThen nothing left), ⟨j', lock'⟩, ?_, ?_⟩
      · obtain ⟨f, rest, frames⟩ := h.exists_frame
        rw [← lock'.frames, ← h.frames, closes.frames, capabilities, frames]
        rfl
      · have queue : v.Decidable gaveUp := by
          show ((Discharger.flushFrom _ 0 v.discharger.queue).run v.discharger).1.2 = none
          rw [discharger, idle rfl]
          rfl
        rintro b unconsumed (told | ⟨mem, here⟩)
        · exact .inl (closes.keeps b (keeps b told))
        · have all : b.frame ∈ w.capabilities.frames.take (w.capabilities.frames.length + 1) := by
            rw [List.take_of_length_le (Nat.le_succ _), capabilities]
            exact here.elim List.mem_of_mem_take fun idle => idle.2
          rw [← capabilities] at mem
          refine (closes.keeps_or_leaks mem unconsumed all).imp_right fun outer => ?_
          exact ⟨closes.table ▸ mem, .inr ⟨queue, List.mem_of_mem_take outer⟩⟩

/-- Closing the open scopes reports what the unit owes, up to the frame that is left. -/
theorem Lockstep.settles_closeScopes (h : u.Lockstep j) (gaveUp : Nat → Nat → Bool) {fuel : Nat}
    (enough : u.scopeCount = fuel) :
    ∃ fault v, (closeScopes gaveUp fuel).run u = (fault, v) ∧ (∃ j', v.Lockstep j') ∧
      ∀ b, b.life.state ≠ .consumed → u.Owes gaveUp b → v.Settles b := by
  induction fuel generalizing u j with
  | zero =>
      have some_ : 0 < u.scopeCount := by
        rw [scopeCount, bodies_eq_cons u]
        simp
      omega
  | succ fuel ih =>
      rw [closeScopes, run_get_bind]
      cases blocks : u.current.blocks with
      | cons k rest =>
          obtain ⟨found, w, closed, ⟨j', lock⟩, fewer, owes⟩ :=
            h.owes_closeBlock gaveUp k.span blocks
          obtain ⟨fault, v, others, lock', settles⟩ := ih lock (by omega)
          refine ⟨fault, v, ?_, lock', fun b unconsumed owed =>
            settles b unconsumed (owes b unconsumed owed)⟩
          simp only
          rw [run_bind_of closed, closeScopes.next]
          exact others
      | nil =>
          cases functions : u.functions with
          | nil =>
              refine ⟨none, u, rfl, ⟨j, h⟩, ?_⟩
              have single : u.capabilities.frames.length = 1 := by
                rw [h.frames, scopeCount]
                simp_all [bodies, current]
              rintro b - (told | ⟨mem, here | ⟨-, here⟩⟩)
              · exact .inl told
              · exact .inr ⟨mem, by simpa [blocks] using here⟩
              · exact .inr ⟨mem, by rwa [List.take_of_length_le single.le]⟩
          | cons f others =>
              obtain ⟨found, fault, w, ended, ⟨j', lock⟩, owes⟩ :=
                h.owes_endFunction gaveUp f.span blocks functions
              rw [enough] at ended
              simp only
              rw [run_bind_of ended, closeScopes.next]
              cases fault with
              | some fault => exact ⟨some fault, w, rfl, ⟨j', lock⟩, fun b _ owed => owes b owed⟩
              | none =>
                  obtain ⟨fewer, owes⟩ := owes
                  obtain ⟨fault, v, others, lock', settles⟩ := ih lock (by omega)
                  exact ⟨fault, v, others, lock', fun b unconsumed owed =>
                    settles b unconsumed (owes b unconsumed owed)⟩

/-- Finishing a unit makes a report, which tells what the unit owes. -/
theorem Lockstep.tells_finish (h : u.Lockstep j) (gaveUp : Nat → Nat → Bool) :
    ∃ report, ((finish gaveUp).run u).1.1 = some report ∧
      ∀ b, b.life.state ≠ .consumed → u.Owes gaveUp b →
        ∃ v ∈ report.violations, ∃ site, v.key = (Capability.Context.leak b site).key := by
  obtain ⟨inner, u₁, closed, ⟨j₁, lock⟩, settles⟩ :=
    h.settles_closeScopes gaveUp rfl
  obtain ⟨found, fault, u₂, flushed, capabilities, keeps, -, -, lock', -, -⟩ :=
    exists_flushQueue (gaveUp 0) u₁
  obtain ⟨f, rest, frames⟩ := (lock' j₁ lock).exists_frame
  obtain ⟨leaks, u₃, left, closes, -⟩ := exists_closesFrame frames u.root.span
  obtain ⟨violations, -, -⟩ := finish_ok h.live closed flushed left
  obtain ⟨report, made, violations⟩ := Option.map_eq_some_iff.mp violations
  refine ⟨report, made, fun b unconsumed owed => ?_⟩
  have told : u₃.Tells b := by
    obtain told | ⟨mem, here⟩ := settles b unconsumed owed
    · exact closes.keeps b (keeps b told)
    · rw [← capabilities] at mem here
      exact closes.leaks b mem here unconsumed
  obtain ⟨v, mem, site, key⟩ := told.collectAll u₃.capabilities.validate
  rw [violations]
  exact ⟨v, mem_sort.mpr mem, site, key⟩

/-- A unit that is finished reports every capability of an open frame that is not consumed, if it
belongs to the innermost body or if the queued obligations can be decided without a fault where
the innermost function is closed, with its blocks closed and itself still to go.  The
finding that reports it is its leak, as far as its key tells: that is the kind, and the name and
the place of the definition if they are written without bars. -/
theorem finish_reports_leaks {name : String} {registry : Registry} {config : CheckerConfig}
    {run : String} {opening : Bool → Except Fault σ} {rs : List Request}
    (whole : (fresh name registry config run opening).followAll rs = (u, j))
    (gaveUp : Nat → Nat → Bool) :
    ∃ report, ((finish gaveUp).run u).1.1 = some report ∧
      ∀ b ∈ u.capabilities.table, b.frame ∈ u.capabilities.frames → b.life.state ≠ .consumed →
        b.frame ∈ u.capabilities.frames.take (u.current.blocks.length + 1) ∨
          ((Discharger.flush (gaveUp (u.scopeCount - u.current.blocks.length))).run
            u.discharger).1.2 = none →
        ∃ v ∈ report.violations, v.kind = .resourceLeak ∧
          ∃ site, v.key = (Capability.Context.leak b site).key ∧
            ((Capability.Context.leak b site).Legible → v.binding = b.name ∧
              (b.definedAt.isValid = true →
                v.conflict.map Span.render = some b.definedAt.render)) := by
  obtain ⟨report, made, tells⟩ := (lockstep_of_followAll whole).tells_finish gaveUp
  refine ⟨report, made, fun b mem open_ unconsumed reached => ?_⟩
  have owed : u.Owes gaveUp b := .inr ⟨mem, reached.imp_right fun decided => ⟨decided, open_⟩⟩
  obtain ⟨v, mem', site, key⟩ := tells b unconsumed owed
  obtain ⟨kind, place⟩ := Capability.Context.leak_of_key_eq key
  exact ⟨v, mem', kind, site, key, place⟩

/-- A tensor of the unit, and a function that is not closed. -/
def tensorOutside : List Request :=
  [.declare "s" (some .tensor) (.point "u" 1 1), .beginFunction "f" (.point "u" 2 1)]

/-- The tensor of `tensorOutside`. -/
def outsideTensor : Capability.Binding where
  id := 0
  name := "s"
  kind := .tensor
  definedAt := .point "u" 1 1
  frame := 0

/-- The tensor of `tensorOutside` is reported: nothing is queued, so the function can be closed. -/
theorem finish_reports_leaks_tensorOutside :
    let u := ((fresh "u" .empty {} "" bare).followAll tensorOutside).1
    ∃ report, ((finish fun _ _ => true).run u).1.1 = some report ∧
      ∃ v ∈ report.violations, v.kind = .resourceLeak ∧
        ∃ site, v.key = (Capability.Context.leak outsideTensor site).key := by
  intro u
  have whole : (fresh "u" .empty {} "" bare).followAll tensorOutside =
      (u, ((fresh "u" .empty {} "" bare).followAll tensorOutside).2) := rfl
  have mem : outsideTensor ∈ u.capabilities.table := List.mem_singleton.mpr rfl
  have open_ : outsideTensor.frame ∈ u.capabilities.frames := List.mem_of_getLast? rfl
  have idle : ((Discharger.flush fun _ => true).run u.discharger).1.2 = none := rfl
  obtain ⟨report, made, reports⟩ := finish_reports_leaks whole fun _ _ => true
  obtain ⟨v, mem', kind, site, key, -⟩ := reports outsideTensor mem open_ (by decide) (.inr idle)
  exact ⟨report, made, v, mem', kind, site, key⟩

/-- An obligation that waits in the function keeps the tensor of `tensorOutside` from being
reported when the caller has given up. -/
theorem leak_unreported_after_fault :
    let u := ((fresh "u" .empty {} "" bare).followAll
      (tensorOutside ++ [.require ⟨.literal 5, .range 0 9, .point "u" 3 1⟩])).1
    outsideTensor ∈ u.capabilities.table ∧ outsideTensor.frame ∈ u.capabilities.frames ∧
      outsideTensor.life.state ≠ .consumed ∧
      ∃ report, ((finish fun _ _ => true).run u).1.1 = some report ∧ report.violations = [] := by
  intro u
  have capabilities : u.capabilities.table = [outsideTensor] ∧ u.capabilities.frames = [1, 0] :=
    ⟨rfl, rfl⟩
  have report : ((finish fun _ _ => true).run u).1.1.map Report.violations = some [] := by
    cbv
  obtain ⟨report, made, none⟩ := Option.map_eq_some_iff.mp report
  rw [capabilities.1, capabilities.2]
  exact ⟨List.mem_singleton.mpr rfl, by decide, by decide, report, made, none⟩

end CompilationUnit

end ResourceSafety
