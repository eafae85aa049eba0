import ResourceSafety.Text.Bytes

/-!
# Bytes as letters

Three bytes are written as four letters of six bits each.  One or two bytes at
the end are written as two or three letters and filled up with equals signs.  The
bits of the last letter that belong to no byte are not looked at.  Line ends do
not count.
-/

namespace ResourceSafety.Text.Base64

/-- The six bits of a letter. -/
def value? (c : Char) : Option Nat :=
  if 'A' ≤ c && c ≤ 'Z' then some (c.toNat - 65)
  else if 'a' ≤ c && c ≤ 'z' then some (c.toNat - 71)
  else if '0' ≤ c && c ≤ '9' then some (c.toNat + 4)
  else if c == '+' then some 62
  else if c == '/' then some 63
  else none

/-- The bytes that letters stand for. -/
def bytes? : List Char → Option Bytes
  | [] => some []
  | [a, b, '=', '='] => do
    let n := (← value? a) * 64 + (← value? b)
    return [UInt8.ofNat (n / 16)]
  | [a, b, c, '='] => do
    let n := ((← value? a) * 64 + (← value? b)) * 64 + (← value? c)
    return [UInt8.ofNat (n / 1024), UInt8.ofNat (n / 4)]
  | a :: b :: c :: d :: rest => do
    let n := (((← value? a) * 64 + (← value? b)) * 64 + (← value? c)) * 64 + (← value? d)
    return UInt8.ofNat (n / 65536) :: UInt8.ofNat (n / 256) :: UInt8.ofNat n :: (← bytes? rest)
  | _ => none

/-- The bytes that a text stands for. -/
def decode? (text : String) : Option Bytes :=
  bytes? (text.toList.filter fun c => c != '\r' && c != '\n')

end ResourceSafety.Text.Base64
