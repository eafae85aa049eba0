import ResourceSafety.Ledger.File
import ResourceSafety.Proofs.Json.Values
import ResourceSafety.Proofs.Source.Compact

/-!
# Ledgers survive saving

A ledger goes through three forms: its entry, the JSON of the entry, and the text.  Each form gives
back the one before it.  A text reads as the JSON that was written, the fields of the JSON fill the
entry again, and the spans of the entry read as the spans of the notes when these are valid and
have no offsets (`Ledger.load_save`).
-/

namespace ResourceSafety

open JsonValue (Readable fillText fillList fillRecord overlay ofString?_render)

/-! ## Records -/

/-- Items laid over nothing are read one by one. -/
theorem JsonValue.overlay_map {α : Type} {fill : α → JsonValue → Option α} {fresh : α}
    {json : α → JsonValue} {as : List α} (reads : ∀ a ∈ as, fill fresh (json a) = some a) :
    overlay fill fresh [] (as.map json) = some as := by
  induction as with
  | nil => rfl
  | cons a as ih =>
    obtain ⟨first, others⟩ := List.forall_mem_cons.mp reads
    rw [List.map_cons, overlay, first, ih others]
    rfl

theorem JsonValue.fillList_map {α : Type} {fill : α → JsonValue → Option α} {fresh : α}
    {json : α → JsonValue} {as : List α} (reads : ∀ a ∈ as, fill fresh (json a) = some a) :
    fillList fill fresh [] (.list (as.map json)) = some as := overlay_map reads

theorem JsonValue.readable_strings (l : List String) {room : Nat} :
    Readable (room + 1) (strings l) :=
  .list (List.forall_mem_map.mpr fun s _ => .string s)

namespace NoteEntry

theorem readable_toJson (e : NoteEntry) {room : Nat} : Readable (room + 2) e.toJson := by
  refine .object (List.forall_mem_append.mpr ⟨List.forall_mem_append.mpr ⟨?_, ?_⟩, ?_⟩)
  · simp [Readable.string]
  · split
    · exact List.forall_mem_nil _
    · exact List.forall_mem_singleton.mpr (JsonValue.readable_strings _)
  · split
    · exact List.forall_mem_nil _
    · exact List.forall_mem_singleton.mpr (.string _)

theorem foldlM_core (e : NoteEntry) {fresh : NoteEntry} (first : fresh.core = []) :
    (if e.core.isEmpty then [] else [("unsat_core", .strings e.core)]).foldlM
      (fun r (k, v) => NoteEntry.field r k v) fresh = some { fresh with core := e.core } := by
  have texts : fillList fillText "" [] (.strings e.core) = some e.core :=
    JsonValue.fillList_map fun _ _ => rfl
  split
  next empty =>
    rw [List.isEmpty_iff.mp empty, ← first]
    rfl
  next =>
    show ((fillList fillText "" fresh.core (.strings e.core)).map
      ({ fresh with core := · })).bind _ = _
    rw [first, texts]
    rfl

theorem foldlM_derived (e : NoteEntry) {fresh : NoteEntry} (first : fresh.derived = "") :
    (if e.derived == "" then [] else [("derived_lemma", .string e.derived)]).foldlM
      (fun r (k, v) => NoteEntry.field r k v) fresh =
        some { fresh with derived := e.derived } := by
  split
  next empty =>
    rw [beq_iff_eq.mp empty, ← first]
    rfl
  next => rfl

/-- The fields of an entry fill the entry again.  A field that was left out is empty. -/
theorem fillRecord_toJson (e : NoteEntry) : fillRecord NoteEntry.field {} e.toJson = some e := by
  let always : NoteEntry := { e with core := [], derived := "" }
  have core : always.core = [] := rfl
  rw [toJson, fillRecord, List.foldlM_append, List.foldlM_append]
  show Option.bind (List.foldlM _ always _) _ = _
  rw [foldlM_core e core]
  exact foldlM_derived e rfl

end NoteEntry

namespace LedgerEntry

theorem readable_toJson (e : LedgerEntry) : Readable JsonValue.depthLimit e.toJson := by
  have notes : Readable 9999 (.list (e.notes.map NoteEntry.toJson)) :=
    .list (List.forall_mem_map.mpr fun n _ => n.readable_toJson)
  show Readable (9999 + 1) _
  refine .object ?_
  simp [Readable.string, notes]

theorem fillRecord_toJson (e : LedgerEntry) : fillRecord LedgerEntry.field {} e.toJson = some e := by
  have notes : fillList (fillRecord NoteEntry.field) {} [] (.list (e.notes.map NoteEntry.toJson)) =
      some e.notes := JsonValue.fillList_map fun n _ => n.fillRecord_toJson
  show ((fillList (fillRecord NoteEntry.field) {} [] (.list (e.notes.map NoteEntry.toJson))).map
    fun notes => ({ version := e.version, run := e.run, unit := e.unit, notes } : LedgerEntry)).bind
      _ = _
  rw [notes]
  rfl

end LedgerEntry

/-! ## Notes -/

/-- The span of the note is valid, and its ends have no offsets. -/
structure Note.Portable (n : Note) : Prop where
  valid : n.span.isValid = true
  start : n.span.start.offset = 0
  stop : n.span.stop.offset = 0

theorem Note.Portable.toNote_ofNote {n : Note} (portable : n.Portable) :
    (NoteEntry.ofNote n).toNote = .ok n := by
  have span := Span.ofCompact_renderRange portable.valid portable.start portable.stop
  rw [NoteEntry.toNote, NoteEntry.ofNote]
  simp only [bind, Except.bind, span]
  rfl

theorem NoteEntry.toNotes_map {notes : List Note} (portable : ∀ n ∈ notes, n.Portable)
    (index : Nat) : toNotes index (notes.map ofNote) = .ok notes := by
  induction notes generalizing index with
  | nil => rfl
  | cons n notes ih =>
    obtain ⟨first, others⟩ := List.forall_mem_cons.mp portable
    rw [List.map_cons, toNotes, first.toNote_ofNote]
    simp only [bind, Except.bind, Except.mapError, ih others]
    rfl

/-- The schema that is written is one that is read. -/
def Versions.ReadsSchema (versions : Versions) : Prop :=
  ∃ v, versions.read schemaVersion = .ok v ∧ versions.meets v compatibleSchemas = true

theorem Versions.readsSchema_semantic : semantic.ReadsSchema :=
  ⟨⟨1, 0, 0, "", ""⟩, by decide +kernel, by decide +kernel⟩

namespace Ledger

variable {versions : Versions}

theorem toLedger_ofLedger (reads : versions.ReadsSchema) {l : Ledger}
    (portable : ∀ n ∈ l.notes, n.Portable) : (LedgerEntry.ofLedger l).toLedger versions = .ok l := by
  obtain ⟨v, read, compatible⟩ := reads
  rw [LedgerEntry.toLedger, LedgerEntry.ofLedger]
  simp only [bind, Except.bind, read, compatible, Except.mapError, NoteEntry.toNotes_map portable]
  rfl

/-- Loading what was saved gives the same ledger back, as long as the version of its schema is
accepted. -/
theorem load_save (reads : versions.ReadsSchema) {l : Ledger}
    (portable : ∀ n ∈ l.notes, n.Portable) : load versions l.save = .ok l := by
  rw [load, save, ofString?_render (LedgerEntry.readable_toJson _), Option.bind_some,
    LedgerEntry.fillRecord_toJson]
  exact toLedger_ofLedger reads portable

/-- A ledger with a span up to the last line and column, and with characters that are escaped. -/
def farthest : Ledger where
  run := "r<1>"
  unit := "a\"b\\c"
  notes :=
    [{ plugin := "p&q", kind := "bounds", message := "x\n\ty\u2028z", goal := "(not (< i n))"
       core := ["", "(< i n)"], derived := "é\x01"
       span := ⟨{ file := "m.oriz", line := 1, column := 9223372036854775807 },
         { file := "m.oriz", line := 9223372036854775807, column := 9223372036854775807 }⟩ },
     { kind := "leak"
       span := ⟨{ file := "dir/n-1:2.oriz", line := 7, column := 3 },
         { file := "dir/n-1:2.oriz", line := 7, column := 12 }⟩ }]

theorem load_save_farthest : load .semantic farthest.save = .ok farthest :=
  load_save Versions.readsSchema_semantic (List.forall_mem_cons.mpr ⟨⟨by decide, rfl, rfl⟩,
    List.forall_mem_singleton.mpr ⟨by decide, rfl, rfl⟩⟩)

end Ledger

end ResourceSafety
