import ResourceSafety.Text.Bytes
import ResourceSafety.Yaml.ScalarText

/-!
# Anchors, tags and directives

A node may be named by an *anchor*, and an *alias* stands for the node so named.
A *tag* says what sort of value a node is.  It is written in full between `!<`
and `>`, or as a *handle* and a rest.  A handle is `!`, `!!`, or a word between
exclamation marks, and stands for the beginning of the tag.

A *directive* stands in front of a document.  It tells the version of the
notation, or what a handle stands for.
-/

namespace ResourceSafety.Yaml

open Scan

/-! ## Anchors -/

/-- The characters besides blanks that may follow the name of an anchor. -/
def followsName (c : Char) : Bool := "?:,]\x7d%@`".toList.contains c

/-- The name of an anchor or an alias, at the mark in front of it. -/
def takeName : Scan String := do
  let start := (← get).line
  skip
  let name ← takeWhile isNameChar
  let next ← peek
  if name.isEmpty || !(isBlankOrEnd next || (next.map followsName).getD false) then
    fail .noName start
  return String.ofList name

/-! ## Tags -/

/-- A tag as it is written: its handle, empty when the tag is written in full, and
the rest. -/
structure TagText where
  /-- The handle. -/
  handle : String
  /-- What follows the handle. -/
  rest : Text.Bytes
deriving Repr, DecidableEq

/-- A character that may stand in a tag as it is. -/
def isTagChar (c : Char) : Bool := isNameChar c || ";/?:@&=+$,.!~*'()[]".toList.contains c

/-- The number of bytes of the character that a byte begins; zero when it begins
none. -/
def leadSize (b : Nat) : Nat :=
  if b < 0x80 then 1 else if b < 0xC0 then 0 else if b < 0xE0 then 2 else if b < 0xF0 then 3
  else if b < 0xF8 then 4 else 0

/-- One byte of a tag that is written as a percent sign and two digits. -/
def takeTagByte (start : Nat) : Scan Nat := do
  need 3
  match (← get).rest with
  | '%' :: a :: b :: _ =>
    match hexNumber? [a, b] with
    | some n =>
      skipMany 3
      return n
    | none => fail .tagDigits start
  | _ => fail .tagDigits start

/-- The further bytes of a character in a tag. -/
def takeTrail (start : Nat) : Nat → Scan Text.Bytes
  | 0 => return []
  | n + 1 => do
    let line := (← get).line
    let b ← takeTagByte start
    if b < 0x80 || 0xC0 ≤ b then throw ⟨.tagTrail, start, line⟩
    return UInt8.ofNat b :: (← takeTrail start n)

/-- A character of a tag that is written byte by byte. -/
def takeTagChar (start : Nat) : Scan Text.Bytes := do
  let line := (← get).line
  let b ← takeTagByte start
  if leadSize b = 0 then throw ⟨.tagLead, start, line⟩
  return UInt8.ofNat b :: (← takeTrail start (leadSize b - 1))

/-- A loop over the characters of a tag. -/
def tagLoop (start : Nat) : Nat → Text.Bytes → Scan Text.Bytes
  | 0, seen => return seen
  | fuel + 1, seen => do
    need 1
    match ← peek with
    | some '%' => tagLoop start fuel (seen ++ (← takeTagChar start))
    | some c =>
      if isTagChar c then
        skip
        tagLoop start fuel (seen ++ [UInt8.ofNat c.toNat])
      else return seen
    | none => return seen

/-- The rest of a tag after what was read of it.  There must be something. -/
def takeTagRest (start : Nat) (head : Option (List Char)) : Scan Text.Bytes := do
  let c ← get
  let rest ← tagLoop start c.bound ((head.getD []).map fun d => UInt8.ofNat d.toNat)
  if head.isNone && rest.isEmpty then fail .noTagName start
  return rest

/-- An exclamation mark and a word, and whether a second mark closes it. -/
def takeHandle (start : Nat) : Scan (List Char × Bool) := do
  need 1
  if !(← at? (· == '!')) then fail .noHandleEnd start
  skip
  let word ← takeWhile isNameChar
  if ← at? (· == '!') then
    skip
    return (word, true)
  else return (word, false)

/-- A handle as a text. -/
def handleText (word : List Char) (closed : Bool) : String :=
  String.ofList ('!' :: word ++ if closed then ['!'] else [])

/-- A tag, at its first exclamation mark. -/
def takeTag : Scan TagText := do
  let start := (← get).line
  need 2
  let tag ← if (← get).peekAt 1 == some '<' then do
      skipMany 2
      let rest ← takeTagRest start none
      if !(← at? (· == '>')) then fail .noTagEnd start
      skip
      pure ⟨"", rest⟩
    else do
      let (word, closed) ← takeHandle start
      if closed then pure ⟨handleText word true, ← takeTagRest start none⟩
      else
        let rest ← takeTagRest start (some word)
        if rest.isEmpty then pure ⟨"", Text.Bytes.ofString "!"⟩ else pure ⟨"!", rest⟩
  need 1
  if !isBlankOrEnd (← peek) then fail .tagRest start
  return tag

/-! ## Directives -/

/-- A directive. -/
inductive Directive
  | version (major minor : Nat)
  /-- What a handle stands for. -/
  | handle (name : String) (meaning : Text.Bytes)
deriving Repr, DecidableEq

/-- A number of a version, of at most two digits. -/
def versionLoop (start : Nat) : Nat → Nat → Nat → Scan Nat
  | 0, _, n => return n
  | fuel + 1, size, n => do
    need 1
    match ← peek with
    | some d =>
      if '0' ≤ d && d ≤ '9' then
        if size = 2 then fail .longVersion start
        skip
        versionLoop start fuel (size + 1) (n * 10 + (d.toNat - 48))
      else if size = 0 then fail .noVersion start
      else return n
    | none => if size = 0 then fail .noVersion start else return n

/-- The version of the notation. -/
def takeVersion (start : Nat) : Scan Directive := do
  skipWhile isBlank
  let major ← versionLoop start 3 0 0
  if !(← at? (· == '.')) then fail .noVersionPoint start
  skip
  return .version major (← versionLoop start 3 0 0)

/-- What a handle stands for. -/
def takeHandleMeaning (start : Nat) : Scan Directive := do
  skipWhile isBlank
  let (word, closed) ← takeHandle start
  if !closed && !word.isEmpty then fail .noHandleEnd start
  need 1
  if !(← at? isBlank) then fail .noHandleGap start
  skipWhile isBlank
  let meaning ← takeTagRest start none
  need 1
  if !isBlankOrEnd (← peek) then fail .tagRest start
  return .handle (handleText word closed) meaning

/-- A directive with its line, at its percent sign. -/
def takeDirective : Scan Directive := do
  let start := (← get).line
  skip
  let name ← takeWhile isNameChar
  if name.isEmpty then fail .noDirective start
  if !isBlankOrEnd (← peek) then fail .directiveName start
  let d ← if name == "YAML".toList then takeVersion start
    else if name == "TAG".toList then takeHandleMeaning start
    else fail .unknownDirective start
  need 1
  endLine start
  return d

end ResourceSafety.Yaml
