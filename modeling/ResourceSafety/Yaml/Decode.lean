import ResourceSafety.Text.Base64
import ResourceSafety.Text.Quoted
import ResourceSafety.Yaml.Node
import ResourceSafety.Yaml.Scalar

/-!
# Filling records from YAML

A field is filled from a node.  A scalar that denotes nothing leaves a text, a
truth value or a number as it was, and empties a list.  Any other scalar fills
a text with the characters it is written with, whatever it denotes.

A truth value may also be written with one of the older words, quoted or not.  A
number that is not written as a whole number is cut to its whole part and then
wrapped into 64 bits where it is too small.

An item that denotes nothing is left out of a list.  A record takes no two
fields of one name and none with an unknown name.  The key `<<` merges other
mappings into a record: their fields are taken after its own, and only those
whose names were not met before.

Reading goes on after a value that does not fit, so that all *misfits* of a
document are reported, in the order in which they are met.  It is given up where a
value contradicts its tag or where aliases are abused.
-/

namespace ResourceSafety.Yaml

/-! ## What can go wrong -/

/-- A value or a key that does not fit. -/
inductive Misfit
  /-- A value that the target cannot hold. -/
  | value (line : Nat) (found target : String)
  /-- A field that the record does not have. -/
  | unknownField (line : Nat) (name record : String)
  /-- A field that was filled before, by a key that is written in another way. -/
  | filledField (line : Nat) (name record : String)
  /-- A key that an earlier line has. -/
  | repeatedKey (line : Nat) (key : String) (first : Nat)
deriving Repr, DecidableEq

/-- The wording of a misfit. -/
def Misfit.message : Misfit → String
  | value line found target => s!"line {line}: cannot unmarshal {found} into {target}"
  | unknownField line name record => s!"line {line}: field {name} not found in type {record}"
  | filledField line name record => s!"line {line}: field {name} already set in type {record}"
  | repeatedKey line key first =>
    s!"line {line}: mapping key " ++ Text.quote key ++ s!" already defined at line {first}"

/-- Why reading is given up. -/
inductive Abort
  /-- A text that denotes another sort of value than its tag says. -/
  | clash (found text tag : String)
  /-- Something else than mappings is to be merged. -/
  | mergeValue
  /-- Letters that stand for no bytes. -/
  | badLetters
  /-- A node that contains itself. -/
  | selfContained (name : String)
  /-- Nearly all of the document comes from aliases. -/
  | tooManyAliases
deriving Repr, DecidableEq

/-- The wording of a reason to give up. -/
def Abort.message : Abort → String
  | clash found text tag => s!"cannot decode {found} `{text}` as a {tag}"
  | mergeValue => "map merge requires map or sequence of maps as the value"
  | badLetters => "!!binary value contains invalid base64 data"
  | selfContained name => s!"anchor '{name}' value contains itself"
  | tooManyAliases => "document contains excessive aliasing"

/-- Why a text gives no value. -/
inductive LoadError
  /-- It is no YAML. -/
  | malformed (flaw : Flaw)
  /-- Reading was given up. -/
  | aborted (cause : Abort)
  /-- Its values do not fit. -/
  | misfits (ms : List Misfit)
deriving Repr, DecidableEq

/-- The wording of an error. -/
def LoadError.message : LoadError → String
  | malformed flaw => flaw.message
  | aborted cause => "yaml: " ++ cause.message
  | misfits ms => "yaml: unmarshal errors:\n  " ++ "\n  ".intercalate (ms.map Misfit.message)

/-! ## Reading -/

/-- What was met so far. -/
structure Progress where
  /-- What did not fit, newest first. -/
  misfits : List Misfit := []
  /-- The number of nodes that were met. -/
  visits : Nat := 0
  /-- The number of nodes that were met through aliases. -/
  aliasVisits : Nat := 0
  /-- The number of aliases around the present node. -/
  depth : Nat := 0

/-- Nearly all nodes were met through aliases.  The share that is allowed falls
from 99 to 10 of a hundred as the document grows. -/
def Progress.isExcessive (p : Progress) : Bool :=
  100 < p.aliasVisits && 1000 < p.visits &&
    if p.visits ≤ 400000 then 99 * p.visits < 100 * p.aliasVisits
    else if 4000000 ≤ p.visits then p.visits < 10 * p.aliasVisits
    else p.visits * (99 * 3600000 - 89 * (p.visits - 400000)) < 360000000 * p.aliasVisits

/-- An action that reads nodes. -/
abbrev Reading := StateT Progress (Except Abort)

namespace Reading

/-- Notes something that does not fit. -/
def note (m : Misfit) : Reading Unit := modify fun p => { p with misfits := m :: p.misfits }

/-- Counts a node. -/
def visit : Reading Unit := do
  let p ← get
  let p := { p with
    visits := p.visits + 1, aliasVisits := p.aliasVisits + if p.depth = 0 then 0 else 1 }
  if p.isExcessive then throw .tooManyAliases
  set p

/-- Reads through an alias. -/
def throughAlias {α : Type} (read : Reading α) : Reading α := do
  modify fun p => { p with depth := p.depth + 1 }
  let a ← read
  modify fun p => { p with depth := p.depth - 1 }
  return a

end Reading

/-- What the root of a document gives; nothing inside when there is none. -/
def Document.load {α : Type} (read : Node → Reading α) : Document → Except LoadError (Option α)
  | absent => .ok none
  | malformed flaw => .error (.malformed flaw)
  | present root =>
    match (Reading.visit *> read root).run {} with
    | .error cause => .error (.aborted cause)
    | .ok (a, p) =>
      if p.misfits.isEmpty then .ok (some a) else .error (.misfits p.misfits.reverse)

namespace Node

open Reading

/-! ## Scalars -/

/-- A plain scalar that stands for the merging of mappings. -/
def isMergeMark (text : String) (plain : Bool) (tag : Option String) : Bool :=
  text == "<<" && (tag == some "!!merge" || (tag.isNone && plain))

/-- The tags that say what a scalar must denote. -/
def checkedTags : List String := ["!!bool", "!!int", "!!float", "!!null", "!!timestamp"]

/-- What a scalar denotes. -/
def denote (text : String) (plain : Bool) (tag : Option String) : Except Abort Scalar :=
  match tag with
  | none =>
    if plain && !isMergeMark text plain none then .ok (Scalar.resolve true text)
    else .ok (.text text)
  | some tag =>
    if tag == "!!binary" then
      match Text.Base64.decode? text with
      | some bytes => .ok (.text bytes.toText)
      | none => .error .badLetters
    else if checkedTags.contains tag then
      let s := Scalar.resolve (tag == "!!timestamp") text
      if s.sort == tag then .ok s
      else match tag, s with
        | "!!float", .int n =>
          if Word.isSigned n then .ok (.real (some (Number.roundedWhole n)))
          else .error (.clash s.sort text tag)
        | _, _ => .error (.clash s.sort text tag)
    else .ok (.text text)

/-- The tag of a scalar, written or not. -/
def scalarTag (text : String) (plain : Bool) (tag : Option String) : String :=
  tag.getD <|
    if !plain then "!!str" else if isMergeMark text plain tag then "!!merge"
    else (Scalar.resolve true text).sort

/-- A text for a message.  Only seven bytes are shown of one with more than
ten. -/
def excerpt (text : String) : String :=
  let bytes := Text.Bytes.ofString text
  if bytes.length ≤ 10 then text else Text.Bytes.toText (bytes.take 7) ++ "..."

/-- A tag and a text for a message.  The text is not marked off from the tag of a
collection. -/
def describeAs (tag text : String) : String :=
  if tag == "!!seq" || tag == "!!map" then tag ++ text else tag ++ " `" ++ excerpt text ++ "`"

/-- A node for a message. -/
def describe : Node → String
  | scalar text plain tag _ => describeAs (scalarTag text plain tag) text
  | sequence _ tag _ => describeAs (tag.getD "!!seq") ""
  | mapping _ tag _ => describeAs (tag.getD "!!map") ""
  | reference _ target _ => describe target
  | loop _ _ outline _ => describe outline

/-- Notes that a node does not fit a target. -/
def refuse {α : Type} (n : Node) (target : String) : Reading (Option α) := do
  note (.value n.line n.describe target)
  return none

/-- Reads a node, or the node that an alias stands for. -/
def inside {α : Type} (n : Node) (read : (m : Node) → sizeOf m ≤ sizeOf n → Reading α) :
    Reading α := do
  visit
  match n, read with
  | reference name target line, read =>
    throughAlias do
      visit
      read target (by simp only [reference.sizeOf_spec]; omega)
  | n, read => read n (Nat.le_refl _)

/-- What a scalar node gives for a target that holds no collection.  Nothing when
it denotes nothing. -/
def fromScalar {α : Type} (target : String) (take : String → Scalar → Option α) (n : Node) :
    Reading (Option α) :=
  n.inside fun m _ => do
    match m with
    | scalar text plain tag _ =>
      let s ← (denote text plain tag : Except Abort Scalar)
      if s == .null then return none
      match take text s with
      | some a => return some a
      | none => m.refuse target
    | loop _ _ outline _ => outline.refuse target
    | m => m.refuse target

/-- The text in a node. -/
def text? : Node → Reading (Option String) :=
  fromScalar "string" fun written s =>
    match s with
    | .text content => some content
    | _ => some written

/-- A text field after a node was read into it. -/
def fillText (old : String) (n : Node) : Reading String := (·.getD old) <$> n.text?

/-- The older words for true. -/
def trueWords : List String := ["y", "Y", "yes", "Yes", "YES", "on", "On", "ON"]

/-- The older words for false. -/
def falseWords : List String := ["n", "N", "no", "No", "NO", "off", "Off", "OFF"]

/-- The truth value that a scalar denotes, with the older words. -/
def bool? : Scalar → Option Bool
  | .bool b => some b
  | .text content =>
    if trueWords.contains content then some true
    else if falseWords.contains content then some false
    else none
  | _ => none

/-- A truth value after a node was read into it. -/
def fillBool (old : Bool) (n : Node) : Reading Bool :=
  (·.getD old) <$> n.fromScalar "bool" fun _ => bool?

/-! ## Numbers -/

/-- The 64 bits of a whole part that is at most `Word.count`.  What has no place
there becomes the highest bit alone. -/
def wrapUnsigned (w : Int) : Nat :=
  if Word.isUnsigned w then w.toNat
  else if Word.isSigned w then (w + Word.count).toNat
  else Word.half

/-- The signed 64 bits of a whole part that is at most `Word.half`. -/
def wrapSigned (w : Int) : Int := if Word.isSigned w then w else -(Word.half : Int)

/-- The unsigned number of at most so many bits that a scalar gives. -/
def unsigned? (bits : Nat) : Scalar → Option Nat
  | .int v => if 0 ≤ v && v < (Word.countOf bits : Int) then some v.toNat else none
  | .real (some w) =>
    if w ≤ (Word.count : Int) && wrapUnsigned w < Word.countOf bits then some (wrapUnsigned w)
    else none
  | _ => none

/-- The signed 64-bit number that a scalar gives. -/
def signed? : Scalar → Option Int
  | .int v => if Word.isSigned v then some v else none
  | .real (some w) => if w ≤ (Word.half : Int) then some (wrapSigned w) else none
  | _ => none

/-- The unsigned number of at most so many bits in a node. -/
def natural? (bits : Nat) (n : Node) : Reading (Option Nat) :=
  n.fromScalar s!"uint{bits}" fun _ => unsigned? bits

/-- The 64-bit number in a node. -/
def word? (n : Node) : Reading (Option UInt64) := Option.map UInt64.ofNat <$> n.natural? 64

/-- An unsigned number of at most so many bits after a node was read into it. -/
def fillUnsigned (bits old : Nat) (n : Node) : Reading Nat := (·.getD old) <$> n.natural? bits

/-- A signed 64-bit number after a node was read into it. -/
def fillSigned (old : Int) (n : Node) : Reading Int :=
  (·.getD old) <$> n.fromScalar "int" fun _ => signed?

/-- A 64-bit number after a node was read into it. -/
def fillWord (old : UInt64) (n : Node) : Reading UInt64 := (·.getD old) <$> n.word?

/-- A node whose tag says that it denotes nothing. -/
def isNull : Node → Bool
  | scalar text plain tag _ => scalarTag text plain tag == "!!null"
  | sequence _ tag _ => tag == some "!!null"
  | mapping _ tag _ => tag == some "!!null"
  | reference _ target _ => isNull target
  | loop _ _ outline _ => isNull outline

/-- A node that is a scalar. -/
def isScalar : Node → Bool
  | scalar _ _ _ _ => true
  | _ => false

/-- An optional field after a node was read into it. -/
def fillOption {α : Type} (target : String) (read : Node → Reading (Option α)) (n : Node) :
    Reading (Option α) :=
  if !n.isNull then read n
  else n.inside fun m _ => do
    match m with
    | scalar text plain tag _ =>
      discard (denote text plain tag : Except Abort Scalar)
      return none
    | m => m.refuse ("*" ++ target)

/-! ## Lists -/

/-- The items of a list, without those that give nothing.  The reader is told that
an item is smaller than the node. -/
def fillList {α : Type} (target : String) (n : Node)
    (read : (m : Node) → sizeOf m < sizeOf n → Reading (Option α)) : Reading (List α) :=
  n.inside fun m hm => do
    match m, hm with
    | sequence items tag line, hm =>
      let found ← items.attach.mapM fun ⟨i, hi⟩ => read i <| by
        have := List.sizeOf_lt_of_mem hi
        simp only [sequence.sizeOf_spec] at hm
        omega
      return found.reduceOption
    | loop name _ (sequence _ _ _) _, _ => throw (.selfContained name)
    | loop _ _ outline _, _ => return (← outline.refuse ("[]" ++ target)).getD []
    | scalar text plain tag line, _ =>
      if (← (denote text plain tag : Except Abort Scalar)) == .null then return []
      else return (← (scalar text plain tag line).refuse ("[]" ++ target)).getD []
    | m, _ => return (← m.refuse ("[]" ++ target)).getD []

/-! ## Records -/

/-- The text of a key. -/
def keyText : Node → String
  | scalar text _ _ _ => text
  | reference name _ _ => name
  | loop name _ _ _ => name
  | _ => ""

/-- The key is an alias. -/
def isAlias : Node → Bool
  | reference _ _ _ => true
  | loop _ _ _ _ => true
  | _ => false

/-- Two scalars or two aliases with the same text, or two collections of one kind:
they cannot both be keys of a mapping. -/
def sameKey : Node → Node → Bool
  | scalar a _ _ _, scalar b _ _ _ => a == b
  | sequence _ _ _, sequence _ _ _ => true
  | mapping _ _ _, mapping _ _ _ => true
  | a, b => a.isAlias && b.isAlias && a.keyText == b.keyText

/-- The keys that an earlier pair has. -/
def repeatedKeys : List (Node × Node) → List Misfit
  | [] => []
  | (k, _) :: rest =>
    (rest.filter fun (j, _) => sameKey k j).map (fun (j, _) =>
      .repeatedKey j.line j.keyText k.line) ++ repeatedKeys rest

/-- A key that stands for the merging of mappings. -/
def isMergeKey : Node → Bool
  | scalar text plain tag _ => isMergeMark text plain tag
  | _ => false

/-- The name that a key takes for itself when mappings are merged. -/
def takenName? : Node → Option String
  | scalar text plain tag _ =>
    match denote text plain tag with
    | .ok (.text content) => some content
    | _ => none
  | reference _ target _ => takenName? target
  | _ => none

/-- One of the mappings that a record is read from. -/
inductive Source
  /-- Its pairs, and whether they are met through an alias. -/
  | pairs (ps : List (Node × Node)) (aliased : Bool)
  /-- A mapping with repeated keys. -/
  | repeated (ms : List Misfit)
  /-- Something that cannot be read. -/
  | barred (cause : Abort)

/-- The pairs of a source. -/
def Source.entries : Source → List (Node × Node)
  | pairs ps _ => ps
  | _ => []

mutual

/-- The mappings that a node brings into a record: a mapping itself and those that
it merges, or the items of a sequence where that is allowed. -/
def sources (list aliased : Bool) : Node → List Source
  | mapping pairs _ _ =>
    match repeatedKeys pairs with
    | [] => .pairs pairs aliased :: mergedSources aliased pairs
    | ms => [.repeated ms]
  | sequence items _ _ => if list then itemSources aliased items else [.barred .mergeValue]
  | reference _ (mapping pairs tag line) _ => sources false true (mapping pairs tag line)
  | loop name _ (mapping _ _ _) _ => [.barred (.selfContained name)]
  | _ => [.barred .mergeValue]

/-- The mappings that the pairs of a mapping merge. -/
def mergedSources (aliased : Bool) : List (Node × Node) → List Source
  | [] => []
  | (k, v) :: rest => if k.isMergeKey then sources true aliased v else mergedSources aliased rest

/-- The mappings that the items of a sequence bring in. -/
def itemSources (aliased : Bool) : List Node → List Source
  | [] => []
  | n :: ns => sources false aliased n ++ itemSources aliased ns

end

mutual

/-- A value of a source is smaller than the node. -/
theorem sizeOf_lt_of_mem_sources {list aliased : Bool} {n : Node} {s : Source} {p : Node × Node}
    (hs : s ∈ sources list aliased n) (hp : p ∈ s.entries) : sizeOf p.2 < sizeOf n := by
  match n with
  | mapping pairs tag line =>
    rw [sources] at hs
    split at hs
    · rcases List.mem_cons.1 hs with rfl | hs
      · have h := List.sizeOf_lt_of_mem (show p ∈ pairs from hp)
        rcases p with ⟨k, v⟩
        simp only [mapping.sizeOf_spec, Prod.mk.sizeOf_spec] at h ⊢
        omega
      · have h := sizeOf_lt_of_mem_mergedSources hs hp
        simp only [mapping.sizeOf_spec]
        omega
    · rw [List.mem_singleton.1 hs] at hp
      exact absurd hp (List.not_mem_nil)
  | sequence items tag line =>
    rw [sources] at hs
    split at hs
    · have h := sizeOf_lt_of_mem_itemSources hs hp
      simp only [sequence.sizeOf_spec]
      omega
    · rw [List.mem_singleton.1 hs] at hp
      exact absurd hp (List.not_mem_nil)
  | reference name (mapping pairs tag line) l =>
    rw [sources] at hs
    have h := sizeOf_lt_of_mem_sources hs hp
    simp only [reference.sizeOf_spec]
    omega
  | scalar _ _ _ _ | reference _ (scalar _ _ _ _) _ | reference _ (sequence _ _ _) _
  | reference _ (reference _ _ _) _ | reference _ (loop _ _ _ _) _ | loop _ _ (scalar _ _ _ _) _
  | loop _ _ (sequence _ _ _) _ | loop _ _ (mapping _ _ _) _ | loop _ _ (reference _ _ _) _
  | loop _ _ (loop _ _ _ _) _ =>
    simp only [sources, List.mem_singleton] at hs
    rw [hs] at hp
    exact absurd hp (List.not_mem_nil)
termination_by sizeOf n

/-- A value of a source that pairs merge is smaller than the list of them. -/
theorem sizeOf_lt_of_mem_mergedSources {aliased : Bool} {ps : List (Node × Node)} {s : Source}
    {p : Node × Node} (hs : s ∈ mergedSources aliased ps) (hp : p ∈ s.entries) :
    sizeOf p.2 < sizeOf ps := by
  match ps with
  | [] => simp only [mergedSources, List.not_mem_nil] at hs
  | (k, v) :: rest =>
    rw [mergedSources] at hs
    simp only [List.cons.sizeOf_spec, Prod.mk.sizeOf_spec]
    split at hs
    · have h := sizeOf_lt_of_mem_sources hs hp
      omega
    · have h := sizeOf_lt_of_mem_mergedSources hs hp
      omega
termination_by sizeOf ps

/-- A value of a source that items bring in is smaller than the list of them. -/
theorem sizeOf_lt_of_mem_itemSources {aliased : Bool} {ns : List Node} {s : Source}
    {p : Node × Node} (hs : s ∈ itemSources aliased ns) (hp : p ∈ s.entries) :
    sizeOf p.2 < sizeOf ns := by
  match ns with
  | [] => simp only [itemSources, List.not_mem_nil] at hs
  | n :: ns =>
    rw [itemSources] at hs
    simp only [List.cons.sizeOf_spec]
    rcases List.mem_append.1 hs with hs | hs
    · have h := sizeOf_lt_of_mem_sources hs hp
      omega
    · have h := sizeOf_lt_of_mem_itemSources hs hp
      omega
termination_by sizeOf ns

end

/-- A record and the names that its fields took. -/
structure Filling (α : Type) where
  /-- The record. -/
  record : α
  /-- The names of fields that are not taken from further sources; none before a
  first source was read. -/
  taken : Option (List String) := none
  /-- The names of the fields that the present source has filled. -/
  filled : List String := []
  /-- The record was read from a mapping without repeated keys. -/
  complete : Bool := false

/-- A record after one pair of a source was read. -/
def fillPair {α : Type} (kind : String) (f : Filling α) (k : Node)
    (field : α → String → Option (Reading α)) : Reading (Filling α) := do
  if k.isMergeKey then return f
  match ← k.text? with
  | none => return f
  | some name =>
    match f.taken with
    | some taken => if taken.contains name then return f
    | none => pure ()
    let f := { f with taken := f.taken.map (name :: ·) }
    match field f.record name with
    | none =>
      note (.unknownField k.line name kind)
      return f
    | some read =>
      if f.filled.contains name then
        note (.filledField k.line name kind)
        return f
      else return { f with record := ← read, filled := name :: f.filled }

/-- A record after a source was read.  The reader of a field is told that the
value belongs to the source. -/
def fillSource {α : Type} (kind : String) (f : Filling α) (s : Source)
    (field : α → String → (p : Node × Node) → p ∈ s.entries → Option (Reading α)) :
    Reading (Filling α) := do
  match s, field with
  | .barred cause, _ => throw cause
  | .repeated ms, _ =>
    ms.forM note
    return f
  | .pairs ps aliased, field =>
    let read := ps.attach.foldlM (fun f ⟨(k, v), h⟩ =>
      fillPair kind f k fun r name => field r name (k, v) h) { f with filled := [] }
    let f ← if aliased then throughAlias read else read
    return { f with
      taken := some (f.taken.getD (ps.filterMap fun (k, _) => k.takenName?)), complete := true }

/-- A record after a node was read into it, field by field; nothing when the node
gives none.  `field` reads one field, if there is one of that name, and is told
that its value is smaller than the node. -/
def fillRecord {α : Type} (kind : String) (old : α) (n : Node)
    (field : α → String → (v : Node) → sizeOf v < sizeOf n → Option (Reading α)) :
    Reading (Option α) :=
  n.inside fun m hm => do
    match m, hm with
    | mapping pairs tag line, hm =>
      let f ← (sources false false (mapping pairs tag line)).attach.foldlM (fun f ⟨s, hs⟩ =>
        fillSource kind f s fun r name p hp => field r name p.2
          (Nat.lt_of_lt_of_le (sizeOf_lt_of_mem_sources hs hp) hm)) { record := old }
      return if f.complete then some f.record else none
    | loop name _ (mapping _ _ _) _, _ => throw (.selfContained name)
    | loop _ _ outline _, _ => outline.refuse kind
    | scalar text plain tag line, _ =>
      if (← (denote text plain tag : Except Abort Scalar)) == .null then return none
      else (scalar text plain tag line).refuse kind
    | m, _ => m.refuse kind

end Node

end ResourceSafety.Yaml
