/-!
# Changes of files

A *change* is what happened to a file since the last look: a set of five events.
Changes are collected by path, and taken out in batches ordered by path.
-/

namespace ResourceSafety

/-- What happened to a file. -/
structure Change where
  created : Bool := false
  written : Bool := false
  removed : Bool := false
  renamed : Bool := false
  /-- Its permissions were changed. -/
  chmodded : Bool := false
deriving Repr, DecidableEq

namespace Change

/-- The change with the given bits, lowest first in the order of the fields.
Higher bits are ignored. -/
def ofBits (bits : Nat) : Change :=
  { created := bits.testBit 0, written := bits.testBit 1, removed := bits.testBit 2
    renamed := bits.testBit 3, chmodded := bits.testBit 4 }

/-- Everything that happened in either change. -/
def merge (a b : Change) : Change :=
  { created := a.created || b.created, written := a.written || b.written
    removed := a.removed || b.removed, renamed := a.renamed || b.renamed
    chmodded := a.chmodded || b.chmodded }

/-- The text of a change. -/
def render (c : Change) : String :=
  let parts := ([(c.created, "create"), (c.written, "write"), (c.removed, "remove"),
    (c.renamed, "rename"), (c.chmodded, "chmod")].filter (·.1)).map (·.2)
  if parts.isEmpty then "none" else "|".intercalate parts

/-- The file is gone. -/
def isRemoval (c : Change) : Bool := c.removed || c.renamed

end Change

/-- The changes since the last batch, ordered by path. -/
abbrev Pending := List (String × Change)

namespace Pending

/-- One more change of a path. -/
def record (path : String) (c : Change) : Pending → Pending
  | [] => [(path, c)]
  | (p, d) :: rest =>
    if path == p then (p, d.merge c) :: rest
    else if path < p then (path, c) :: (p, d) :: rest
    else (p, d) :: record path c rest

/-- One more change of a path, when the path is watched for. -/
def recordMatching (watched : String → Bool) (path : String) (c : Change) (p : Pending) : Pending :=
  if watched path then p.record path c else p

end Pending

end ResourceSafety
