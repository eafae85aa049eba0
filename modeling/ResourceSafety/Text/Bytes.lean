/-!
# Texts as bytes

Some readers work on the UTF-8 bytes of a text and may stop inside a character.
`Bytes` is such a text.  It need not be valid UTF-8, so reading it back gives a
list of *pieces*: a piece is a whole character, or one byte that starts none.

Only the shortest encoding of a scalar value is a character.  Overlong forms,
surrogates and values above `0x10FFFF` are stray bytes, one piece per byte.
-/

namespace ResourceSafety.Text

/-- A text as its bytes. -/
abbrev Bytes := List UInt8

/-- The UTF-8 bytes of a text. -/
def Bytes.ofString (s : String) : Bytes := s.toUTF8.toList

/-- One step of reading bytes as UTF-8. -/
inductive Piece
  /-- A whole character. -/
  | char (c : Char)
  /-- A byte that starts no character. -/
  | stray (b : UInt8)
deriving Repr, DecidableEq

/-- A byte of the form `10xxxxxx`. -/
def isContinuation (b : UInt8) : Bool := 0x80 ≤ b && b ≤ 0xBF

/-- The six payload bits of a continuation byte. -/
def payload (b : UInt8) : Nat := b.toNat % 64

/-- The second byte of a three-byte form.  The first byte rules out overlong
forms and surrogates. -/
def isSecondOfThree (a b : UInt8) : Bool :=
  (if a == 0xE0 then 0xA0 else 0x80) ≤ b && b ≤ (if a == 0xED then 0x9F else 0xBF)

/-- The second byte of a four-byte form.  The first byte rules out overlong
forms and values above `0x10FFFF`. -/
def isSecondOfFour (a b : UInt8) : Bool :=
  (if a == 0xF0 then 0x90 else 0x80) ≤ b && b ≤ (if a == 0xF4 then 0x8F else 0xBF)

/-- The character at the head of the bytes, with the rest. -/
def Bytes.head? : Bytes → Option (Char × Bytes)
  | [] => none
  | a :: t =>
    if a < 0x80 then some (Char.ofNat a.toNat, t)
    else if 0xC2 ≤ a && a ≤ 0xDF then
      match t with
      | b :: t =>
        if isContinuation b then some (Char.ofNat (a.toNat % 32 * 64 + payload b), t) else none
      | _ => none
    else if 0xE0 ≤ a && a ≤ 0xEF then
      match t with
      | b :: c :: t =>
        if isSecondOfThree a b && isContinuation c then
          some (Char.ofNat (a.toNat % 16 * 4096 + payload b * 64 + payload c), t)
        else none
      | _ => none
    else if 0xF0 ≤ a && a ≤ 0xF4 then
      match t with
      | b :: c :: d :: t =>
        if isSecondOfFour a b && isContinuation c && isContinuation d then
          some (Char.ofNat (a.toNat % 8 * 262144 + payload b * 4096 + payload c * 64 + payload d), t)
        else none
      | _ => none
    else none

/-- The pieces of the bytes, with one step of fuel per piece. -/
def Bytes.piecesUpTo : Nat → Bytes → List Piece
  | 0, _ => []
  | _, [] => []
  | fuel + 1, b :: t =>
    match Bytes.head? (b :: t) with
    | some (c, rest) => .char c :: Bytes.piecesUpTo fuel rest
    | none => .stray b :: Bytes.piecesUpTo fuel t

/-- The pieces of the bytes.  Every piece takes at least one byte. -/
def Bytes.pieces (bs : Bytes) : List Piece := Bytes.piecesUpTo bs.length bs

/-- The bytes as a text, with the replacement character for each stray byte. -/
def Bytes.toText (bs : Bytes) : String :=
  String.ofList (bs.pieces.map fun
    | .char c => c
    | .stray _ => Char.ofNat 0xFFFD)

end ResourceSafety.Text
