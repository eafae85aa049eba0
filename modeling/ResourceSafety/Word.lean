/-!
# Machine words

The sizes of 64-bit words, written out, and powers for the few places that need
other sizes.  An unsigned word is below `Word.count`.  A signed one is at least
minus `Word.half` and below `Word.half`.
-/

namespace ResourceSafety.Word

/-- The number of 64-bit words. -/
def count : Nat := 0x10000000000000000

/-- Half of the 64-bit words. -/
def half : Nat := 0x8000000000000000

/-- The number of words of so many bits. -/
def countOf (bits : Nat) : Nat := Nat.pow 2 bits

/-- A whole number that is an unsigned 64-bit word. -/
def isUnsigned (n : Int) : Bool := 0 ≤ n && n < (count : Int)

/-- A whole number that is a signed 64-bit word. -/
def isSigned (n : Int) : Bool := -(half : Int) ≤ n && n < (half : Int)

end ResourceSafety.Word
