import ResourceSafety.Yaml.Token

/-!
# YAML documents

A document is a tree of scalars, sequences and mappings.  It is built from the
tokens of a text.  Only the first document of a text is read.

Where a node is left out, after a dash, a key or a colon, the empty plain scalar
stands for it.  A block sequence may stand under a key without being indented.
A pair inside a flow sequence is a mapping of its own.

An alias holds the node it stands for.  One that stands inside that very node is
a *loop*.  A loop is unrolled once, and then only the outline of the node is
kept: a collection of its kind without anything inside.
-/

namespace ResourceSafety.Yaml

/-- A node of a document, with the line it begins on, counted from one.  The tag
is there when one is written. -/
inductive Node
  /-- A scalar, and whether it is plain. -/
  | scalar (text : String) (plain : Bool) (tag : Option String := none) (line : Nat := 1)
  | sequence (items : List Node) (tag : Option String := none) (line : Nat := 1)
  | mapping (pairs : List (Node × Node)) (tag : Option String := none) (line : Nat := 1)
  | reference (name : String) (target : Node) (line : Nat := 1)
  /-- An alias inside the node with an anchor of that number. -/
  | loop (name : String) (number : Nat) (outline : Node) (line : Nat := 1)
deriving Repr, Inhabited

namespace Node

/-- The line of a node. -/
def line : Node → Nat
  | scalar _ _ _ line => line
  | sequence _ _ line => line
  | mapping _ _ line => line
  | reference _ _ line => line
  | loop _ _ _ line => line

/-- The node that stands for one that is left out on a line, counted from
zero. -/
def empty (line : Nat) : Node := .scalar "" true none (line + 1)

mutual

/-- The node with the loops of an anchor unrolled: the node `whole` is put in
their place. -/
def unroll (number : Nat) (whole : Node) : Node → Node
  | sequence items tag line => sequence (unrollItems number whole items) tag line
  | mapping pairs tag line => mapping (unrollPairs number whole pairs) tag line
  | loop name n outline line =>
    if n = number then reference name whole line else loop name n outline line
  | n => n

/-- The items of a sequence with the loops of an anchor unrolled. -/
def unrollItems (number : Nat) (whole : Node) : List Node → List Node
  | [] => []
  | n :: ns => unroll number whole n :: unrollItems number whole ns

/-- The pairs of a mapping with the loops of an anchor unrolled. -/
def unrollPairs (number : Nat) (whole : Node) : List (Node × Node) → List (Node × Node)
  | [] => []
  | (k, v) :: rest =>
    (unroll number whole k, unroll number whole v) :: unrollPairs number whole rest

end

end Node

/-! ## Building -/

/-- What an anchor names. -/
inductive Named
  /-- A node. -/
  | whole (n : Node)
  /-- A node that is not read to its end, by its outline. -/
  | started (outline : Node)

/-- The state of building a document. -/
structure Assembly where
  /-- The tokens that are not used yet. -/
  tokens : List Token
  /-- The anchors with their numbers, newest first. -/
  anchors : List (String × Nat × Named) := []
  /-- The number of anchors. -/
  count : Nat := 0
  /-- What the handles of tags stand for. -/
  handles : List (String × Text.Bytes) := []

/-- An action that uses tokens and may meet a flaw. -/
abbrev Build := StateT Assembly (Except Flaw)

namespace Build

/-- The next token.  It must be readable. -/
def peek : Build Token := do
  match (← get).tokens with
  | ⟨.unreadable f, _⟩ :: _ => throw f
  | t :: _ => return t
  | [] => return ⟨.streamEnd, 0⟩

/-- Uses the next token. -/
def advance : Build Unit := modify fun a => { a with tokens := a.tokens.tail }

/-- The token `t` is the wrong one inside what begins on a line. -/
def unexpected {α : Type} (p : Problem) (start : Nat) (t : Token) : Build α :=
  throw ⟨p, start, t.line⟩

/-! ### Anchors -/

/-- Gives a new anchor its number. -/
def declare (name : String) (n : Named) : Build Nat := do
  let a ← get
  set { a with anchors := (name, a.count, n) :: a.anchors, count := a.count + 1 }
  return a.count

/-- Gives an anchor the node that it names. -/
def complete (number : Nat) (n : Node) : Build Unit :=
  modify fun a => { a with anchors := a.anchors.map fun (name, k, old) =>
    (name, k, if k = number then .whole n else old) }

/-- The alias with a name on a line. -/
def resolve (name : String) (line : Nat) : Build Node := do
  match (← get).anchors.lookup name with
  | some (_, .whole n) => return .reference name n (line + 1)
  | some (number, .started outline) => return .loop name number outline (line + 1)
  | none => throw ⟨.unknownAnchor name, 0, 0⟩

/-! ### Properties -/

/-- What stands in front of a node. -/
structure Properties where
  /-- The line where the node begins. -/
  line : Nat
  /-- The anchor. -/
  anchor : Option String := none
  /-- The tag. -/
  tag : Option String := none

/-- The beginning of the tags that have a short form. -/
def longTag : List Char := "tag:yaml.org,2002:".toList

/-- A tag in its short form.  The mark `!` alone is none. -/
def shortTag (tag : String) : Option String :=
  if tag == "!" then none
  else if longTag.isPrefixOf tag.toList then
    some ("!!" ++ String.ofList (tag.toList.drop longTag.length))
  else some tag

/-- The tag that is written in some way. -/
def tagOf (start : Nat) (t : TagText) (line : Nat) : Build String := do
  if t.handle == "" then return t.rest.toText
  match (← get).handles.lookup t.handle with
  | some meaning => return Text.Bytes.toText (meaning ++ t.rest)
  | none => throw ⟨.unknownHandle, start, line⟩

/-- The anchor at the next token. -/
def readAnchor : Build (Option String) := do
  match (← peek).mark with
  | .anchor name =>
    advance
    return some name
  | _ => return none

/-- The tag at the next token with its line, as it is written. -/
def readTag : Build (Option (TagText × Nat)) := do
  let t ← peek
  match t.mark with
  | .tag text =>
    advance
    return some (text, t.line)
  | _ => return none

/-- The anchor and the tag in front of a node, in either order.  The result tells
whether there is any. -/
def readProperties : Build (Properties × Bool) := do
  let line := (← peek).line
  let first ← readAnchor
  let tag ← readTag
  let anchor ← if first.isNone && tag.isSome then readAnchor else pure first
  discard peek
  let full ← tag.mapM fun (text, tagLine) => tagOf line text tagLine
  return (⟨line, anchor, full.bind shortTag⟩, anchor.isSome || tag.isSome)

/-- A scalar with its anchor. -/
def nameScalar (p : Properties) (n : Node) : Build Node := do
  match p.anchor with
  | some name => discard (declare name (.whole n))
  | none => pure ()
  return n

/-- A collection with its anchor.  The anchor is known inside it. -/
def nameCollection (p : Properties) (outline : Node) (read : Build Node) : Build Node := do
  match p.anchor with
  | some name =>
    let number ← declare name (.started outline)
    let n ← read
    let n := n.unroll number n
    complete number n
    return n
  | none => read

end Build

/-- Where a node may stand. -/
inductive Place
  /-- Inside a flow collection. -/
  | flow
  /-- In a block, indented. -/
  | block
  /-- Under a key, where a sequence need not be indented. -/
  | underKey
deriving Repr, DecidableEq

/-- The marks before which a node under a key is left out. -/
def endsPair : Mark → Bool
  | .key | .value | .blockEnd => true
  | _ => false

/-- The marks before which an item of a block sequence is left out. -/
def endsItem : Mark → Bool
  | .blockEntry | .blockEnd => true
  | _ => false

/-- The marks before which a value inside a flow collection is left out; `close`
is the end of the collection. -/
def endsFlow (close : Mark) (m : Mark) : Bool := m == .flowEntry || m == close

open Build in
mutual

/-- A node. -/
def readNode : Nat → Place → Build Node
  | 0, _ => do unexpected .expectedNode 0 (← peek)
  | fuel + 1, place => do
    let first ← peek
    match first.mark with
    | .reference name =>
      advance
      resolve name first.line
    | _ =>
      let (p, any) ← readProperties
      let t ← peek
      let line := p.line + 1
      match t.mark with
      | .scalar text plain =>
        advance
        nameScalar p (.scalar text plain p.tag line)
      | .flowSequenceStart =>
        advance
        nameCollection p (.sequence [] p.tag line)
          (return .sequence (← readFlowItems fuel t.line true) p.tag line)
      | .flowMappingStart =>
        advance
        nameCollection p (.mapping [] p.tag line)
          (return .mapping (← readFlowPairs fuel t.line true) p.tag line)
      | m =>
        if m == .blockEntry && place == .underKey then
          nameCollection p (.sequence [] p.tag line)
            (return .sequence (← readPlainItems fuel) p.tag line)
        else if m == .blockSequenceStart && place != .flow then
          advance
          nameCollection p (.sequence [] p.tag line)
            (return .sequence (← readBlockItems fuel t.line) p.tag line)
        else if m == .blockMappingStart && place != .flow then
          advance
          nameCollection p (.mapping [] p.tag line)
            (return .mapping (← readBlockPairs fuel t.line) p.tag line)
        else if any then nameScalar p (.scalar "" true p.tag line)
        else unexpected .expectedNode p.line t

/-- The items of a block sequence up to its end. -/
def readBlockItems : Nat → Nat → Build (List Node)
  | 0, start => do unexpected .expectedEntry start (← peek)
  | fuel + 1, start => do
    let t ← peek
    match t.mark with
    | .blockEnd =>
      advance
      return []
    | .blockEntry =>
      advance
      let item ← if endsItem (← peek).mark then pure (.empty t.line) else readNode fuel .block
      return item :: (← readBlockItems fuel start)
    | _ => unexpected .expectedEntry start t

/-- The items of a sequence that is not indented. -/
def readPlainItems : Nat → Build (List Node)
  | 0 => return []
  | fuel + 1 => do
    let t ← peek
    match t.mark with
    | .blockEntry =>
      advance
      let next := (← peek).mark
      let item ← if next == .blockEntry || endsPair next then pure (.empty t.line)
        else readNode fuel .block
      return item :: (← readPlainItems fuel)
    | _ => return []

/-- The pairs of a block mapping up to its end. -/
def readBlockPairs : Nat → Nat → Build (List (Node × Node))
  | 0, start => do unexpected .expectedKey start (← peek)
  | fuel + 1, start => do
    let t ← peek
    match t.mark with
    | .blockEnd =>
      advance
      return []
    | .key =>
      advance
      let k ← if endsPair (← peek).mark then pure (.empty t.line) else readNode fuel .underKey
      let v ← readBlockValue fuel
      return (k, v) :: (← readBlockPairs fuel start)
    | _ => unexpected .expectedKey start t

/-- The value of a pair of a block mapping. -/
def readBlockValue : Nat → Build Node
  | 0 => return .empty 0
  | fuel + 1 => do
    let t ← peek
    if t.mark == .value then
      advance
      if endsPair (← peek).mark then return .empty t.line else readNode fuel .underKey
    else return .empty t.line

/-- The items of a flow sequence up to its end.  A comma stands between two
items, and one may follow the last.  When the key of a pair is left out, the mark
in its place is passed over, whatever it is. -/
def readFlowItems : Nat → Nat → Bool → Build (List Node)
  | 0, start, _ => do unexpected .expectedItem start (← peek)
  | fuel + 1, start, first => do
    let t ← peek
    if t.mark == .flowSequenceEnd then
      advance
      return []
    if !first then
      if t.mark == .flowEntry then advance else unexpected .expectedItem start t
    let t ← peek
    match t.mark with
    | .flowSequenceEnd =>
      advance
      return []
    | .key =>
      advance
      let next ← peek
      let k ← if next.mark == .value || endsFlow .flowSequenceEnd next.mark then do
          advance
          pure (.empty next.line)
        else readNode fuel .flow
      let v ← readFlowValue fuel .flowSequenceEnd
      discard peek
      return .mapping [(k, v)] none (t.line + 1) :: (← readFlowItems fuel start false)
    | _ =>
      let item ← readNode fuel .flow
      return item :: (← readFlowItems fuel start false)

/-- The pairs of a flow mapping up to its end. -/
def readFlowPairs : Nat → Nat → Bool → Build (List (Node × Node))
  | 0, start, _ => do unexpected .expectedPair start (← peek)
  | fuel + 1, start, first => do
    let t ← peek
    if t.mark == .flowMappingEnd then
      advance
      return []
    if !first then
      if t.mark == .flowEntry then advance else unexpected .expectedPair start t
    let t ← peek
    match t.mark with
    | .flowMappingEnd =>
      advance
      return []
    | .key =>
      advance
      let next ← peek
      let k ← if next.mark == .value || endsFlow .flowMappingEnd next.mark then
          pure (.empty next.line)
        else readNode fuel .flow
      let v ← readFlowValue fuel .flowMappingEnd
      return (k, v) :: (← readFlowPairs fuel start false)
    | _ =>
      let k ← readNode fuel .flow
      let v := .empty (← peek).line
      return (k, v) :: (← readFlowPairs fuel start false)

/-- The value of a pair inside a flow collection. -/
def readFlowValue : Nat → Mark → Build Node
  | 0, _ => return .empty 0
  | fuel + 1, close => do
    let t ← peek
    if t.mark == .value then
      advance
      if endsFlow close (← peek).mark then return .empty t.line else readNode fuel .flow
    else return .empty t.line

end

/-! ## Documents -/

/-- What a text holds. -/
inductive Document
  /-- Nothing but blanks and comments. -/
  | absent
  | present (root : Node)
  /-- It is no YAML. -/
  | malformed (flaw : Flaw)
deriving Repr

namespace Build

/-- What handles stand for when no directive tells. -/
def usualHandles : List (String × Text.Bytes) :=
  [("!", Text.Bytes.ofString "!"), ("!!", Text.Bytes.ofString (String.ofList longTag))]

/-- The directives in front of a document.  `versioned` tells whether a version
was read. -/
def readDirectives : Nat → Bool → Build Unit
  | 0, _ => return
  | fuel + 1, versioned => do
    let t ← peek
    match t.mark with
    | .directive (.version major minor) =>
      if versioned then unexpected .secondVersion 0 t
      if major != 1 || minor != 1 then unexpected .otherVersion 0 t
      advance
      readDirectives fuel true
    | .directive (.handle name meaning) =>
      let a ← get
      if (a.handles.lookup name).isSome then unexpected .secondHandle 0 t
      set { a with handles := a.handles ++ [(name, meaning)] }
      advance
      readDirectives fuel versioned
    | _ => return

/-- The marks before which the root of a document is left out. -/
def endsDocument : Mark → Bool
  | .directive _ | .documentStart | .documentEnd | .streamEnd => true
  | _ => false

/-- The root of the first document; nothing when there is none.  The token after
it must be readable. -/
def readRoot : Build (Option Node) := do
  discard peek
  advance
  let fuel := 4 * (← get).tokens.length + 4
  let t ← peek
  if t.mark == .streamEnd then return none
  readDirectives fuel false
  modify fun a => { a with handles := a.handles ++ usualHandles }
  let begins := (← peek).mark == .documentStart
  if !begins && (t.mark matches .directive _) then unexpected .expectedDocument 0 (← peek)
  if begins then advance
  let next ← peek
  let root ← if begins && endsDocument next.mark then pure (.empty next.line)
    else readNode fuel .block
  discard peek
  return some root

end Build

namespace Document

/-- The document that the tokens begin with. -/
def ofTokens (tokens : List Token) : Document :=
  match Build.readRoot.run { tokens } with
  | .error f => malformed f
  | .ok (none, _) => absent
  | .ok (some root, _) => present root

/-- The first document of a text. -/
def ofString (text : String) : Document := ofTokens (tokens text)

end Document

end ResourceSafety.Yaml
