import ResourceSafety.Json.Reader

/-!
# Filling records from JSON

A record is filled field by field, in the order in which the fields stand in
the text.  Names are compared without case, unknown fields are skipped, and a
later field counts over an earlier one of the same name.

`null` leaves a text or a record as it was, and empties a list.  A list that
comes a second time is laid over the first: an item that is there already is
filled further.  Every other value of the wrong kind is refused.
-/

namespace ResourceSafety.JsonValue

/-- A text field after a value was read into it. -/
def fillText (old : String) : JsonValue → Option String
  | null => some old
  | string s => some s
  | _ => none

/-- Items laid over older ones. -/
def overlay {α : Type} (fill : α → JsonValue → Option α) (fresh : α) :
    List α → List JsonValue → Option (List α)
  | _, [] => some []
  | [], v :: vs => do
    let a ← fill fresh v
    let rest ← overlay fill fresh [] vs
    return a :: rest
  | old :: olds, v :: vs => do
    let a ← fill old v
    let rest ← overlay fill fresh olds vs
    return a :: rest

/-- A list field after a value was read into it. -/
def fillList {α : Type} (fill : α → JsonValue → Option α) (fresh : α) (old : List α) :
    JsonValue → Option (List α)
  | null => some []
  | list items => overlay fill fresh old items
  | _ => none

/-- A record after a value was read into it, field by field. -/
def fillRecord {α : Type} (field : α → String → JsonValue → Option α) (old : α) :
    JsonValue → Option α
  | null => some old
  | object fields => fields.foldlM (fun r (k, v) => field r k v) old
  | _ => none

end ResourceSafety.JsonValue
