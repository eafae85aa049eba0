import ResourceSafety.Command.Examination
import ResourceSafety.Ledger.Summary

/-!
# Writing summaries and versions

The summary of a ledger and the version of the tool, as text and as JSON.
-/

namespace ResourceSafety

/-! ## Summaries -/

namespace Summary

/-- Counts as text. -/
def countsText (c : Counts) : String :=
  " ".intercalate (c.map fun (k, n) => k ++ "=" ++ toString n)

/-- The line of a declaration. -/
def declLine (d : Decl × Tally) : String :=
  "  " ++ d.1.name ++ " (" ++ d.1.span.render ++ s!"): {d.2.total}" ++
    (if 0 < d.2.total then " [" ++ countsText d.2.byKind ++ "]" else "") ++ "\n"

/-- A summary as text. -/
def renderText (l : Ledger) (s : Summary) : String :=
  "unit " ++ l.unit ++ s!": {s.whole.total} proved\n" ++ String.join (s.decls.map declLine) ++
    (if 0 < s.unattributed.total then
      s!"  unattributed: {s.unattributed.total} [" ++ countsText s.unattributed.byKind ++ "]\n"
     else "") ++
    (if 0 < s.whole.total then "by plugin: " ++ countsText s.whole.byPlugin ++ "\n" else "")

/-- Counts as JSON. -/
def countsJson (c : Counts) : JsonValue := .object (c.map fun (k, n) => (k, .int n))

/-- The counts of a part as JSON. -/
def partJson (name : String) (span : Span) (t : Tally) : JsonValue :=
  .object <| ("name", .string name) :: Examination.textField "span" (Examination.spanText span) ++
    [("total", .int t.total), ("by_kind", countsJson t.byKind), ("by_plugin", countsJson t.byPlugin)]

/-- A summary as JSON. -/
def toJson (l : Ledger) (s : Summary) : JsonValue :=
  .object [("run_id", .string l.run), ("unit", .string l.unit), ("total", .int s.whole.total),
    ("decls", .list (s.decls.map fun (d, t) => partJson d.name d.span t)),
    ("unattributed", partJson "" .zero s.unattributed), ("by_kind", countsJson s.whole.byKind),
    ("by_plugin", countsJson s.whole.byPlugin)]

/-- A summary in the chosen form. -/
def write (asJson : Bool) (l : Ledger) (s : Summary) : String :=
  if asJson then (s.toJson l).render else s.renderText l

end Summary

/-! ## Versions -/

/-- What the tool runs on. -/
structure Host where
  /-- The version of the toolchain that built it. -/
  toolchain : String := ""
  /-- The operating system. -/
  system : String := ""
  /-- The processor. -/
  machine : String := ""
  /-- The system and the processor in one word. -/
  platform : String := ""
deriving Repr, DecidableEq

namespace Host

/-- The version of the tool. -/
def version : String := "0.3.0"

/-- The day it was built. -/
def buildDate : String := "2026-10-19"

/-- The revision it was built from. -/
def revision : String := "unknown"

/-- The version as text. -/
def renderText (tool : String) (h : Host) : String :=
  tool ++ " v" ++ version ++ "\nBuild Date: " ++ buildDate ++ "\nGo Version: " ++ h.toolchain ++
    "\nPlatform: " ++ h.platform ++ "\n"

/-- The version as JSON. -/
def toJson (tool : String) (h : Host) : JsonValue :=
  .object [("tool", .string tool), ("version_info", .object
    [("version", .string version), ("build_date", .string buildDate),
      ("commit_sha", .string revision), ("go_version", .string h.toolchain),
      ("platform", .string h.system), ("arch", .string h.machine)])]

/-- The version in the chosen form. -/
def write (asJson : Bool) (tool : String) (h : Host) : String :=
  if asJson then (h.toJson tool).render else h.renderText tool

end Host

end ResourceSafety
