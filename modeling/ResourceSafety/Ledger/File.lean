import ResourceSafety.Json.Decode
import ResourceSafety.Ledger.Basic
import ResourceSafety.Source.Compact
import ResourceSafety.Version

/-!
# Saved ledgers

A saved ledger is a JSON object: the version of the schema, the id of the run,
the unit, and the notes.  A note stores its file and its span in compact form
apart.  The core and the derived fact are left out when they are empty.

Any ledger of the first schema can be loaded.  Loading what was saved gives the
same ledger back, as long as every span of its notes is valid and has no
offsets.
-/

namespace ResourceSafety

/-- The schemas that are read, as a requirement. -/
def compatibleSchemas : String := "^1"

/-- Why a text is no ledger. -/
inductive LedgerError
  /-- It is no JSON, or of the wrong shape. -/
  | notJson
  /-- Its schema version is no version. -/
  | badVersion (text : String) (cause : VersionError)
  /-- Its schema is not the first one. -/
  | incompatible (version : Version)
  /-- The note with this number has a bad span. -/
  | badNote (index : Nat) (span : String) (cause : CompactSpanError)
deriving Repr, DecidableEq

/-- The wording of an error. -/
def LedgerError.message : LedgerError → String
  | .notJson => "decode ledger"
  | .badVersion text cause => "ledger schema version " ++ Text.quote text ++ ": " ++ cause.message
  | .incompatible version => "ledger schema version " ++ version.render ++ " is not " ++ compatibleSchemas
  | .badNote index span cause => s!"note {index}: " ++ Span.compactErrorMessage span cause

/-- A note as it is stored. -/
structure NoteEntry where
  plugin : String := ""
  kind : String := ""
  file : String := ""
  span : String := ""
  message : String := ""
  goal : String := ""
  core : List String := []
  derived : String := ""
deriving Repr, DecidableEq

/-- A ledger as it is stored. -/
structure LedgerEntry where
  version : String := ""
  run : String := ""
  unit : String := ""
  notes : List NoteEntry := []
deriving Repr, DecidableEq

/-- The schema that is written. -/
def schemaVersion : String := "1.0.0"

/-! ## Saving -/

namespace NoteEntry

/-- The stored form of a note. -/
def ofNote (n : Note) : NoteEntry :=
  { plugin := n.plugin, kind := n.kind, file := n.span.start.file, span := n.span.renderRange
    message := n.message, goal := n.goal, core := n.core, derived := n.derived }

/-- A stored note as JSON. -/
def toJson (e : NoteEntry) : JsonValue :=
  .object ([("plugin", .string e.plugin), ("kind", .string e.kind), ("file", .string e.file),
      ("span", .string e.span), ("message", .string e.message), ("smt_goal", .string e.goal)] ++
    (if e.core.isEmpty then [] else [("unsat_core", .strings e.core)]) ++
    (if e.derived == "" then [] else [("derived_lemma", .string e.derived)]))

end NoteEntry

/-- The stored form of a ledger. -/
def LedgerEntry.ofLedger (l : Ledger) : LedgerEntry :=
  { version := schemaVersion, run := l.run, unit := l.unit, notes := l.notes.map NoteEntry.ofNote }

/-- A stored ledger as JSON. -/
def LedgerEntry.toJson (e : LedgerEntry) : JsonValue :=
  .object [("schema_version", .string e.version), ("run_id", .string e.run),
    ("unit", .string e.unit), ("notes", .list (e.notes.map NoteEntry.toJson))]

/-- The text of a saved ledger. -/
def Ledger.save (l : Ledger) : String := (LedgerEntry.ofLedger l).toJson.render

/-! ## Loading -/

open JsonValue (fillText fillList fillRecord sameName)

/-- One field of a stored note. -/
def NoteEntry.field (e : NoteEntry) (name : String) (v : JsonValue) : Option NoteEntry :=
  if sameName name "plugin" then (fillText e.plugin v).map ({ e with plugin := · })
  else if sameName name "kind" then (fillText e.kind v).map ({ e with kind := · })
  else if sameName name "file" then (fillText e.file v).map ({ e with file := · })
  else if sameName name "span" then (fillText e.span v).map ({ e with span := · })
  else if sameName name "message" then (fillText e.message v).map ({ e with message := · })
  else if sameName name "smt_goal" then (fillText e.goal v).map ({ e with goal := · })
  else if sameName name "unsat_core" then
    (fillList fillText "" e.core v).map ({ e with core := · })
  else if sameName name "derived_lemma" then (fillText e.derived v).map ({ e with derived := · })
  else some e

/-- One field of a stored ledger. -/
def LedgerEntry.field (e : LedgerEntry) (name : String) (v : JsonValue) : Option LedgerEntry :=
  if sameName name "schema_version" then (fillText e.version v).map ({ e with version := · })
  else if sameName name "run_id" then (fillText e.run v).map ({ e with run := · })
  else if sameName name "unit" then (fillText e.unit v).map ({ e with unit := · })
  else if sameName name "notes" then
    (fillList (fillRecord NoteEntry.field) {} e.notes v).map ({ e with notes := · })
  else some e

/-- The note that a stored one denotes. -/
def NoteEntry.toNote (e : NoteEntry) : Except CompactSpanError Note := do
  let span ← Span.ofCompact e.file e.span
  return { plugin := e.plugin, kind := e.kind, span, message := e.message, goal := e.goal
           core := e.core, derived := e.derived }

/-- The notes that stored ones denote, the first of which has number `index`. -/
def NoteEntry.toNotes (index : Nat) : List NoteEntry → Except LedgerError (List Note)
  | [] => .ok []
  | e :: es => do
    let note ← e.toNote.mapError (.badNote index e.span)
    let notes ← toNotes (index + 1) es
    return note :: notes

/-- The ledger that a stored one denotes. -/
def LedgerEntry.toLedger (versions : Versions) (e : LedgerEntry) : Except LedgerError Ledger := do
  let version ← (versions.read e.version).mapError (.badVersion e.version)
  if !versions.meets version compatibleSchemas then throw (.incompatible version)
  let notes ← NoteEntry.toNotes 0 e.notes
  return { run := e.run, unit := e.unit, notes }

/-- The ledger that a text holds. -/
def Ledger.load (versions : Versions) (text : String) : Except LedgerError Ledger :=
  match (JsonValue.ofString? text).bind (fillRecord LedgerEntry.field {}) with
  | none => .error .notJson
  | some e => e.toLedger versions

end ResourceSafety
