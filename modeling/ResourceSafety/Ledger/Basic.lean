import ResourceSafety.Source.Span
import ResourceSafety.Text.Quoted

/-!
# The proof ledger

Every obligation that was proved leaves a note: who proved it, where, what was
shown, the goal that was refuted, and the facts that the refutation needed.  A
ledger is the list of the notes of one run, oldest first, under the name of the
unit and an id of the run.
-/

namespace ResourceSafety

/-- A record of one proved obligation. -/
structure Note where
  /-- Who asked for the proof. -/
  plugin : String := ""
  /-- The kind of obligation. -/
  kind : String := ""
  /-- The place. -/
  span : Span := .zero
  /-- The obligation in words. -/
  message : String := ""
  /-- The text of the goal that was refuted. -/
  goal : String := ""
  /-- The texts of the facts that the refutation needed. -/
  core : List String := []
  /-- The conjunction of the core. -/
  derived : String := ""
deriving Repr, DecidableEq

/-- The conjunction of facts as text.  No facts give the empty text, and one
fact stands for itself. -/
def conjunctionText : List String → String
  | [] => ""
  | [fact] => fact
  | facts => "(and " ++ " ".intercalate facts ++ ")"

/-- The id of a run from sixteen bytes.  Two groups of bits are fixed: they say
that the id was drawn at random. -/
def runId (bytes : List UInt8) : String :=
  let bytes := bytes.mapIdx fun i b =>
    if i = 6 then (b &&& 0x0f) ||| 0x40 else if i = 8 then (b &&& 0x3f) ||| 0x80 else b
  let digits := bytes.flatMap fun b => Text.hexDigits 2 b.toNat
  let group := fun (start len : Nat) => String.ofList ((digits.drop start).take len)
  "-".intercalate [group 0 8, group 8 4, group 12 4, group 16 4, group 20 12]

/-- The notes of one run. -/
structure Ledger where
  /-- The id of the run. -/
  run : String
  /-- The unit that was verified. -/
  unit : String
  /-- The notes, oldest first. -/
  notes : List Note := []
deriving Repr, DecidableEq

/-- The ledger with one more note. -/
def Ledger.append (l : Ledger) (n : Note) : Ledger := { l with notes := l.notes ++ [n] }

end ResourceSafety
