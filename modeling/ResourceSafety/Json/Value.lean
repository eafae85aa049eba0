import ResourceSafety.Text.Quoted

/-!
# JSON values and their text

Ledgers and machine-readable reports are JSON.  Objects keep the order of their
fields, because that order is written.

`JsonValue.render` writes one value over several lines, each level indented by
two blanks.  Empty lists and empty objects stay on one line.  Inside strings,
the characters `<`, `>` and `&` and the two Unicode line separators are written
as escapes, so that the text can stand inside other documents.
-/

namespace ResourceSafety

/-- A JSON value.  A number is kept as it is written. -/
inductive JsonValue
  | null
  | bool (value : Bool)
  | number (text : String)
  | string (text : String)
  | list (items : List JsonValue)
  | object (fields : List (String × JsonValue))
deriving Repr, Inhabited

namespace JsonValue

/-- A whole number. -/
def int (n : Int) : JsonValue := number (toString n)

/-- Strings as a list. -/
def strings (l : List String) : JsonValue := list (l.map string)

/-! ## Strings -/

/-- A character that is written by its number. -/
def needsCode (c : Char) : Bool :=
  c.toNat < 0x20 || c == '<' || c == '>' || c == '&' || c.toNat == 0x2028 || c.toNat == 0x2029

/-- One character inside a string. -/
def escapeChar (c : Char) : List Char :=
  match c with
  | '"' => ['\\', '"']
  | '\\' => ['\\', '\\']
  | '\n' => ['\\', 'n']
  | '\r' => ['\\', 'r']
  | '\t' => ['\\', 't']
  | '\x08' => ['\\', 'b']
  | '\x0c' => ['\\', 'f']
  | c => if needsCode c then '\\' :: 'u' :: Text.hexDigits 4 c.toNat else [c]

/-- The characters of a string between its quotes. -/
def escape (cs : List Char) : List Char := cs.flatMap escapeChar

/-- A string with its quotes. -/
def renderString (s : String) : List Char := '"' :: escape s.toList ++ ['"']

/-! ## Values -/

/-- A line end, and the blanks before a line of the given level. -/
def newline (level : Nat) : List Char := '\n' :: List.replicate (2 * level) ' '

mutual

/-- The text of a value that stands at the given level. -/
def renderAt (level : Nat) : JsonValue → List Char
  | null => ['n', 'u', 'l', 'l']
  | bool true => ['t', 'r', 'u', 'e']
  | bool false => ['f', 'a', 'l', 's', 'e']
  | number text => text.toList
  | string text => renderString text
  | list [] => ['[', ']']
  | list (v :: vs) =>
    '[' :: newline (level + 1) ++ renderAt (level + 1) v ++ renderItems (level + 1) vs ++
      newline level ++ [']']
  | object [] => ['\x7b', '\x7d']
  | object ((k, v) :: fs) =>
    '\x7b' :: newline (level + 1) ++ renderString k ++ ':' :: ' ' :: renderAt (level + 1) v ++
      renderFields (level + 1) fs ++ newline level ++ ['\x7d']

/-- The items after the first one. -/
def renderItems (level : Nat) : List JsonValue → List Char
  | [] => []
  | v :: vs => ',' :: newline level ++ renderAt level v ++ renderItems level vs

/-- The fields after the first one. -/
def renderFields (level : Nat) : List (String × JsonValue) → List Char
  | [] => []
  | (k, v) :: fs =>
    ',' :: newline level ++ renderString k ++ ':' :: ' ' :: renderAt level v ++
      renderFields level fs

end

/-- The text of a value, ended by a line end. -/
def render (v : JsonValue) : String := String.ofList (renderAt 0 v ++ ['\n'])

end JsonValue

end ResourceSafety
