import ResourceSafety.Types.Ty
import ResourceSafety.Text.Blank
import ResourceSafety.Text.Decimal
import ResourceSafety.Text.Quoted

/-!
# Reading types

The notation of types:

* `()`, `bool`, `u32`, `string`: the unit type and the scalar types;
* `&T`, `&mut T`: references;
* `Name`, `Name<A, B>`: declared types and their applications;
* `tensor`, `tensor<f32>`: tensors;
* `u32[0..255]`: an integer type between two bounds.

The reader works on bytes.  Spaces may stand before every token.  A name is a
run of bytes that are underscores, colons, digits or letters, where a byte above
127 counts as the Latin-1 character of its value.

Every reader takes the bytes still to read and returns what is left.  Places in
errors are byte offsets from the start, so the readers also carry the length of
the whole text.
-/

namespace ResourceSafety

open Text (Bytes)

/-- What is wrong with the notation of a type. -/
inductive TypeError
  /-- No type at an offset. -/
  | expectedType (offset : Nat)
  /-- Neither a comma nor a closing bracket after an argument. -/
  | expectedSeparator (offset : Nat)
  /-- A tensor of two element types. -/
  | tensorArguments
  /-- A scalar type with arguments. -/
  | scalarArguments (name : Bytes)
  /-- Bounds on a type that is no integer type. -/
  | rangeBase (base : Bytes)
  /-- Bounds without a closing bracket. -/
  | unterminatedRange (offset : Nat)
  /-- Bounds without two dots. -/
  | rangeForm (body : Bytes)
  /-- A lower bound that is no unsigned 64-bit number. -/
  | rangeLower (body : Bytes)
  /-- An upper bound that is no unsigned 64-bit number. -/
  | rangeUpper (body : Bytes)
  /-- A lower bound above the upper bound. -/
  | rangeEmpty (body : Bytes)
  /-- Something after the type. -/
  | trailing (rest : Bytes) (offset : Nat)
deriving Repr, DecidableEq

/-- The wording of an error. -/
def TypeError.message : TypeError → String
  | .expectedType n => s!"expected type at {n}"
  | .expectedSeparator n => s!"expected ',' or '>' at {n}"
  | .tensorArguments => "tensor takes one element type"
  | .scalarArguments name => "primitive " ++ name.toText ++ " takes no type arguments"
  | .rangeBase base => "range refinement requires an integer base, got " ++ base.toText
  | .unterminatedRange n => s!"unterminated range at {n}"
  | .rangeForm body => "range " ++ Text.quoteBytes body ++ ": expected lo..hi"
  | .rangeLower body => "range " ++ Text.quoteBytes body ++ ": bad lower bound"
  | .rangeUpper body => "range " ++ Text.quoteBytes body ++ ": bad upper bound"
  | .rangeEmpty body => "range " ++ Text.quoteBytes body ++ ": empty"
  | .trailing rest n => "unexpected " ++ Text.quoteBytes rest ++ s!" at {n}"

namespace Ty

/-- A letter of ASCII, or a byte that is a letter in Latin-1. -/
def isLetterByte (b : UInt8) : Bool :=
  (0x41 ≤ b && b ≤ 0x5A) || (0x61 ≤ b && b ≤ 0x7A) || b == 0xAA || b == 0xB5 || b == 0xBA ||
    (0xC0 ≤ b && b ≤ 0xD6) || (0xD8 ≤ b && b ≤ 0xF6) || 0xF8 ≤ b

/-- A byte that may stand in a name. -/
def isNameByte (b : UInt8) : Bool :=
  b == 0x5F || b == 0x3A || (0x30 ≤ b && b ≤ 0x39) || isLetterByte b

/-- The bytes after leading spaces. -/
def skipSpaces (bs : Bytes) : Bytes := bs.dropWhile (· == 0x20)

/-- What follows a token after leading spaces, when the token is there. -/
def accept? (token : String) (bs : Bytes) : Option Bytes :=
  let tok := Bytes.ofString token
  let bs := skipSpaces bs
  if tok.isPrefixOf bs then some (bs.drop tok.length) else none

/-- The name after leading spaces, perhaps empty, and what follows it. -/
def takeName (bs : Bytes) : Bytes × Bytes :=
  let bs := skipSpaces bs
  (bs.takeWhile isNameByte, bs.dropWhile isNameByte)

/-- The bytes before and after the first two dots. -/
def cutDots : Bytes → Option (Bytes × Bytes)
  | 0x2E :: 0x2E :: rest => some ([], rest)
  | b :: rest => (cutDots rest).map fun (before, after) => (b :: before, after)
  | [] => none

/-- A bound: an unsigned numeral with blanks around it. -/
def bound? (bs : Bytes) : Option UInt64 :=
  Text.unsigned? (Text.stripWhere Text.isBlank bs.toText.toList)

/-- The bounds between brackets. -/
def readBounds (body : Bytes) : Except TypeError (UInt64 × UInt64) :=
  match cutDots body with
  | none => .error (.rangeForm body)
  | some (loText, hiText) =>
    match bound? loText with
    | none => .error (.rangeLower body)
    | some lo =>
      match bound? hiText with
      | none => .error (.rangeUpper body)
      | some hi => if hi < lo then .error (.rangeEmpty body) else .ok (lo, hi)

/-- The bounds after a type, if there are any. -/
def readRange (total : Nat) (base : Ty) (bs : Bytes) : Except TypeError (Ty × Bytes) :=
  match accept? "[" bs with
  | none => .ok (base, skipSpaces bs)
  | some rest =>
    match base with
    | scalar .int name =>
      match rest.dropWhile (· != 0x5D) with
      | [] => .error (.unterminatedRange (total - rest.length))
      | _ :: after => do
        let (lo, hi) ← readBounds (rest.takeWhile (· != 0x5D))
        .ok (range name lo hi, after)
    | other => .error (.rangeBase other.render)

/-- The type of a name with arguments. -/
def ofName (name : Bytes) (args : List Ty) : Except TypeError Ty :=
  if name == tensorName then
    match args with
    | [] => .ok tensor
    | [element] => .ok (tensorOf element)
    | _ => .error .tensorArguments
  else
    match scalar? name with
    | some kind => if args.isEmpty then .ok (scalar kind name) else .error (.scalarArguments name)
    | none => .ok (if args.isEmpty then named name else applied name args)

mutual

/-- The type at the head of the bytes.  Every nested call is for fewer bytes,
so as much fuel as bytes, and one more, is enough. -/
def readTy (total : Nat) : (fuel : Nat) → Bytes → Except TypeError (Ty × Bytes)
  | 0, bs => .error (.expectedType (total - bs.length))
  | fuel + 1, bs =>
    match accept? "()" bs with
    | some rest => readRange total unit rest
    | none =>
      match accept? "&" bs with
      | some rest => do
        let (word, afterWord) := takeName rest
        let isMut := word == Bytes.ofString "mut"
        let (target, rest) ← readTy total fuel (if isMut then afterWord else rest)
        .ok (reference isMut target, rest)
      | none =>
        let (name, rest) := takeName bs
        if name.isEmpty then .error (.expectedType (total - rest.length))
        else do
          let (args, rest) ←
            match accept? "<" rest with
            | some inner => readArgs total fuel inner
            | none => .ok ([], skipSpaces rest)
          let t ← ofName name args
          readRange total t rest

/-- The arguments up to the closing bracket. -/
def readArgs (total : Nat) : (fuel : Nat) → Bytes → Except TypeError (List Ty × Bytes)
  | 0, bs => .error (.expectedType (total - bs.length))
  | fuel + 1, bs => do
    let (arg, rest) ← readTy total fuel bs
    match accept? ">" rest with
    | some rest => .ok ([arg], rest)
    | none =>
      match accept? "," rest with
      | some rest => do
        let (args, rest) ← readArgs total fuel rest
        .ok (arg :: args, rest)
      | none => .error (.expectedSeparator (total - (skipSpaces rest).length))

end

/-- The type that the bytes denote, with nothing after it but spaces. -/
def ofBytes (bs : Bytes) : Except TypeError Ty := do
  let (t, rest) ← readTy bs.length (2 * bs.length + 2) bs
  match skipSpaces rest with
  | [] => .ok t
  | rest => .error (.trailing rest (bs.length - rest.length))

/-- The type that a text denotes. -/
def ofString (s : String) : Except TypeError Ty := ofBytes (Bytes.ofString s)

/-- The wording of a refusal, with the text that was refused. -/
def errorMessage (s : String) (e : TypeError) : String :=
  "type " ++ Text.quote s ++ ": " ++ e.message

end Ty

end ResourceSafety
