import ResourceSafety.Text.Bytes
import ResourceSafety.Text.Printable

/-!
# Quoted texts

A quoted text stands between double quotes.  Inside, a double quote and a
backslash follow a backslash, printable characters stand for themselves, seven
controls have a letter, and everything else is written by number:

* `\x1b`: another control of ASCII, or a byte that starts no character;
* `\u200b`: another character below `0x10000`;
* `\U000e0001`: any other character.

So a quoted text shows every character, and two texts never share a quoted
form.
-/

namespace ResourceSafety.Text

/-- A lower-case hexadecimal digit. -/
def hexDigit (n : Nat) : Char :=
  if n < 10 then Char.ofNat (48 + n) else Char.ofNat (87 + n)

/-- The lowest `width` hexadecimal digits of a number. -/
def hexDigits : (width : Nat) → Nat → List Char
  | 0, _ => []
  | w + 1, n => hexDigits w (n / 16) ++ [hexDigit (n % 16)]

/-- The letter that stands for a control character after a backslash. -/
def controlLetter? (c : Char) : Option Char :=
  match c.toNat with
  | 7 => some 'a'
  | 8 => some 'b'
  | 9 => some 't'
  | 10 => some 'n'
  | 11 => some 'v'
  | 12 => some 'f'
  | 13 => some 'r'
  | _ => none

/-- A character as it stands inside a quoted text. -/
def quoteChar (c : Char) : List Char :=
  if c == '"' || c == '\\' then ['\\', c]
  else if isPrintable c then [c]
  else match controlLetter? c with
    | some l => ['\\', l]
    | none =>
      let n := c.toNat
      if n < 0x80 then '\\' :: 'x' :: hexDigits 2 n
      else if n < 0x10000 then '\\' :: 'u' :: hexDigits 4 n
      else '\\' :: 'U' :: hexDigits 8 n

/-- A piece as it stands inside a quoted text. -/
def quotePiece : Piece → List Char
  | .char c => quoteChar c
  | .stray b => '\\' :: 'x' :: hexDigits 2 b.toNat

/-- The quoted form of a text. -/
def quote (s : String) : String :=
  String.ofList ('"' :: s.toList.flatMap quoteChar ++ ['"'])

/-- The quoted form of bytes. -/
def quoteBytes (bs : Bytes) : String :=
  String.ofList ('"' :: bs.pieces.flatMap quotePiece ++ ['"'])

end ResourceSafety.Text
