import ResourceSafety.Ledger.Basic

/-!
# Summaries of a ledger

A summary attributes each note to one declaration: to an innermost one among
those whose span contains the note's span, or to none of them.  It then counts
the notes of each declaration, by kind and by plugin.

Counts are kept in the order of their keys.
-/

namespace ResourceSafety

/-- Numbers by key, ordered by key. -/
abbrev Counts := List (String × Nat)

namespace Counts

/-- One more for a key. -/
def increment (key : String) : Counts → Counts
  | [] => [(key, 1)]
  | (k, n) :: rest =>
    if key == k then (k, n + 1) :: rest
    else if key < k then (key, 1) :: (k, n) :: rest
    else (k, n) :: increment key rest

/-- How often each key occurs. -/
def ofKeys (keys : List String) : Counts := keys.foldl (fun c k => c.increment k) []

/-- The number of a key. -/
def count (c : Counts) (key : String) : Nat := (c.lookup key).getD 0

end Counts

/-- A declaration whose span groups notes. -/
structure Decl where
  /-- The name. -/
  name : String
  /-- The place. -/
  span : Span
deriving Repr, DecidableEq

/-- The counts of some notes. -/
structure Tally where
  /-- The number of notes. -/
  total : Nat
  /-- The numbers by kind. -/
  byKind : Counts
  /-- The numbers by plugin. -/
  byPlugin : Counts
deriving Repr, DecidableEq

/-- The counts of notes. -/
def Tally.of (notes : List Note) : Tally :=
  { total := notes.length
    byKind := Counts.ofKeys (notes.map (·.kind))
    byPlugin := Counts.ofKeys (notes.map (·.plugin)) }

/-- The better of the declaration found so far and the next one: the next one
wins when it contains the span and lies inside the one found. -/
def Decl.better (span : Span) (best : Option (Nat × Decl)) (next : Nat × Decl) :
    Option (Nat × Decl) :=
  if !next.2.span.contains span then best
  else match best with
    | none => some next
    | some found => if found.2.span.contains next.2.span then some next else best

/-- The place in the list of an innermost declaration that contains a span. -/
def innermost (decls : List Decl) (span : Span) : Option Nat :=
  ((decls.mapIdx fun i d => (i, d)).foldl (Decl.better span) none).map Prod.fst

/-- The per-declaration view of a ledger. -/
structure Summary where
  /-- The declarations in the order given, with their counts. -/
  decls : List (Decl × Tally)
  /-- The counts of the notes outside every declaration. -/
  unattributed : Tally
  /-- The counts of all notes. -/
  whole : Tally
deriving Repr, DecidableEq

/-- The notes attributed to the given place. -/
def Ledger.notesAt (l : Ledger) (decls : List Decl) (place : Option Nat) : List Note :=
  l.notes.filter fun n => innermost decls n.span == place

/-- Attributes every note and counts. -/
def Ledger.summarize (l : Ledger) (decls : List Decl) : Summary :=
  { decls := decls.mapIdx fun i d => (d, Tally.of (l.notesAt decls (some i)))
    unattributed := Tally.of (l.notesAt decls none)
    whole := Tally.of l.notes }

end ResourceSafety
