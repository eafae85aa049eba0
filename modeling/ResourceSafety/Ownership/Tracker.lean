import ResourceSafety.Fault
import ResourceSafety.Ownership.Record

/-!
# The ownership tracker

The tracker follows the bindings of one function body through its scopes.  A
name means the binding of the innermost scope that holds it.

Every request has three outcomes.  It may be refused with a fault, when the
name is not visible or the scopes do not balance.  It may find a violation,
which leaves the tracker as it was.  Otherwise the tracker moves on, and the
binding's history gains one event.

A *snapshot* holds the records of all bindings of the open scopes.  Bindings
are told apart by number and not by name, so a snapshot still fits after names
were shadowed.  Restoring it rewinds those bindings, and merging several joins
them.  Histories are never rewound.
-/

namespace ResourceSafety.Ownership

/-- What happened to a binding. -/
inductive EventKind
  | define
  | read
  | move
  | borrow
  | borrowMut
  | release
  | merge
deriving Repr, DecidableEq

namespace EventKind

/-- The kinds in order. -/
def all : List EventKind := [define, read, move, borrow, borrowMut, release, merge]

/-- The name of an event. -/
def name : EventKind → String
  | define => "define"
  | read => "read"
  | move => "move"
  | borrow => "borrow"
  | borrowMut => "borrow mut"
  | release => "release"
  | merge => "merge"

/-- The event of an access that broke no rule. -/
def ofAccess : Access → EventKind
  | .read => read
  | .move => move
  | .borrow false => borrow
  | .borrow true => borrowMut

end EventKind

/-- An event of a binding's history. -/
structure Event where
  /-- What happened. -/
  kind : EventKind
  /-- Where it happened. -/
  span : Span
deriving Repr, DecidableEq

/-- A tracked binding. -/
structure Binding where
  /-- The number that tells it from every other binding of the tracker. -/
  id : Nat
  /-- The name. -/
  name : String
  /-- Where it is defined. -/
  definedAt : Span
  /-- Its present record. -/
  record : Record
  /-- Its events, oldest first. -/
  history : List Event
deriving Repr, DecidableEq

/-- The bindings of one scope. -/
abbrev Scope := List Binding

/-- The open scopes of a function body, innermost first. -/
structure Tracker where
  /-- The enclosing scope of the innermost one, and so on. -/
  outer : List Scope := []
  /-- The innermost scope. -/
  inner : Scope := []
  /-- The number of the next binding. -/
  next : Nat := 0
deriving Repr, DecidableEq

/-- The records of bindings at one point. -/
abbrev Snapshot := List (Nat × Record)

namespace Binding

/-- The binding with a new record and one more event. -/
def advance (b : Binding) (r : Record) (kind : EventKind) (site : Span) : Binding :=
  { b with record := r, history := b.history ++ [⟨kind, site⟩] }

end Binding

namespace Tracker

/-- The tracker of an empty body. -/
def empty : Tracker := {}

/-- All open scopes, innermost first. -/
def scopes (t : Tracker) : List Scope := t.inner :: t.outer

/-- All bindings of the open scopes, innermost scope first. -/
def bindings (t : Tracker) : List Binding := t.scopes.flatten

/-- The number of open scopes. -/
def depth (t : Tracker) : Nat := t.outer.length + 1

/-- The binding that a name means. -/
def find? (t : Tracker) (name : String) : Option Binding := t.bindings.find? (·.name == name)

/-- The binding that a name means, or a fault. -/
def lookup (t : Tracker) (name : String) : Except Fault Binding :=
  match t.find? name with
  | some b => .ok b
  | none => .error (.unknownBinding name)

/-- The tracker with every binding changed. -/
def mapBindings (t : Tracker) (f : Binding → Binding) : Tracker :=
  { t with outer := t.outer.map (·.map f), inner := t.inner.map f }

/-- The tracker with one binding replaced by another of the same number. -/
def put (t : Tracker) (b : Binding) : Tracker :=
  t.mapBindings fun old => if old.id = b.id then b else old

/-! ## Scopes -/

/-- A new scope inside the innermost one. -/
def enter (t : Tracker) : Tracker := { t with outer := t.inner :: t.outer, inner := [] }

/-- The innermost scope is closed.  The outermost one never is. -/
def exit (t : Tracker) : Except Fault Tracker :=
  match t.outer with
  | [] => .error (.scopeUnderflow "ownership")
  | s :: rest => .ok { t with outer := rest, inner := s }

/-- A new binding of the innermost scope, owned. -/
def define (t : Tracker) (name : String) (site : Span) : Except Fault Tracker :=
  if t.inner.any (·.name == name) then .error (.duplicateBinding name)
  else
    let b : Binding :=
      { id := t.next, name, definedAt := site, record := {}, history := [⟨.define, site⟩] }
    .ok { t with inner := t.inner ++ [b], next := t.next + 1 }

/-! ## Accesses -/

/-- An access to the binding that a name means. -/
def access (t : Tracker) (a : Access) (name : String) (site : Span) :
    Except Fault (Option Violation × Tracker) := do
  let b ← t.lookup name
  match b.record.refusal? name site a with
  | some v => return (some v, t)
  | none => return (none, t.put (b.advance (b.record.after site a) (.ofAccess a) site))

/-- The latest borrow of a binding ends. -/
def release (t : Tracker) (name : String) (site : Span) : Except Fault Tracker := do
  let b ← t.lookup name
  match b.record.release? with
  | none => throw (.noActiveBorrow name)
  | some r => return t.put (b.advance r .release site)

/-! ## Snapshots -/

/-- The records of all bindings of the open scopes. -/
def snapshot (t : Tracker) : Snapshot := t.bindings.map fun b => (b.id, b.record)

/-- The bindings of a snapshot get their records back.  Others stay. -/
def restore (t : Tracker) (s : Snapshot) : Tracker :=
  t.mapBindings fun b =>
    match s.lookup b.id with
    | some r => { b with record := r }
    | none => b

/-- The record of a binding where the arms meet, and whether the arms agree.
An arm that does not know the binding has no say. -/
def mergeRecord (id : Nat) (first : Record) (arms : List Snapshot) : Record × Bool :=
  let ends := arms.filterMap (·.lookup id)
  if ends.all (·.agrees first) then (first, true) else (ends.foldl Record.join first, false)

/-- The arms of a branch meet.  Bindings unknown to the first arm stay as they
are.  Where the arms disagree, the binding's history gains an event. -/
def merge (t : Tracker) (site : Span) : List Snapshot → Tracker
  | [] => t
  | first :: rest =>
    t.mapBindings fun b =>
      match first.lookup b.id with
      | none => b
      | some r =>
        match mergeRecord b.id r rest with
        | (r, true) => { b with record := r }
        | (r, false) => b.advance r .merge site

end Tracker

end ResourceSafety.Ownership
