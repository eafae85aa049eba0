import ResourceSafety.Text.Blank
import ResourceSafety.Text.Lower
import ResourceSafety.Text.Quoted

/-!
# Capability kinds and tracking modes

A capability is a resource that must be consumed exactly once.  Its *kind* is
the family of resources it belongs to.  A type declaration gives the kind by
name, or by an attribute `#[capability(kind)]`.

The *mode* of a binding says how it is tracked.  Ownership is tracked for every
binding, and the capability lifetime for those whose mode has a kind.
-/

namespace ResourceSafety

/-- A family of resources. -/
inductive CapabilityKind
  | socket
  | tensor
  | region
  | concurrent
  /-- A number that names no family. -/
  | unnamed (number : Int64)
deriving Repr, DecidableEq

namespace CapabilityKind

/-- The named families. -/
def all : List CapabilityKind := [socket, tensor, region, concurrent]

/-- The name of a kind. -/
def name : CapabilityKind → String
  | socket => "socket"
  | tensor => "tensor"
  | region => "region"
  | concurrent => "concurrent"
  | unnamed _ => "none"

/-- The number of a kind; zero means no kind. -/
def number : Option CapabilityKind → Int64
  | none => 0
  | some socket => 1
  | some tensor => 2
  | some region => 3
  | some concurrent => 4
  | some (unnamed n) => n

/-- The kind with a number. -/
def ofNumber (n : Int64) : Option CapabilityKind :=
  match n.toInt with
  | 0 => none
  | 1 => some socket
  | 2 => some tensor
  | 3 => some region
  | 4 => some concurrent
  | _ => some (unnamed n)

/-- The name of a kind that may be absent. -/
def nameOf (kind : Option CapabilityKind) : String := (kind.map name).getD "none"

end CapabilityKind

/-- What is wrong with the text of a capability. -/
inductive CapabilityError
  /-- No family has the name. -/
  | unknownKind (name : String)
  /-- The text is not of the form `#[...]`. -/
  | noAttribute (text : String)
  /-- The attribute is not `capability(kind)`. -/
  | otherAttribute (text : String)
deriving Repr, DecidableEq

/-- The wording of an error. -/
def CapabilityError.message : CapabilityError → String
  | .unknownKind name => "unknown capability kind " ++ Text.quote name
  | .noAttribute text => "attribute " ++ Text.quote text ++ ": expected #[...]"
  | .otherAttribute text => "attribute " ++ Text.quote text ++ ": expected capability(kind)"

namespace CapabilityKind

/-- The kind with a name.  Case and surrounding blanks do not matter. -/
def ofName (text : String) : Except CapabilityError CapabilityKind :=
  let word := Text.lower (Text.trim text)
  match all.find? (·.name == word) with
  | some kind => .ok kind
  | none => .error (.unknownKind word)

/-- The characters between an opening and a closing text. -/
def between? (opening closing : List Char) (cs : List Char) : Option (List Char) :=
  if opening.isPrefixOf cs && closing.isSuffixOf (cs.drop opening.length) then
    some ((cs.drop opening.length).take (cs.length - opening.length - closing.length))
  else none

/-- The kind that an attribute names. -/
def ofAttribute (text : String) : Except CapabilityError CapabilityKind :=
  match between? ['#', '['] [']'] (Text.trim text).toList with
  | none => .error (.noAttribute text)
  | some body =>
    match between? "capability(".toList [')'] (Text.stripWhere Text.isBlank body) with
    | none => .error (.otherAttribute text)
    | some arg => ofName (String.ofList arg)

end CapabilityKind

/-- How a binding is tracked. -/
structure Mode where
  /-- Values of the type are moved, never copied. -/
  linear : Bool := false
  /-- The capability the binding holds. -/
  capability : Option CapabilityKind := none
deriving Repr, DecidableEq

namespace Mode

/-- The binding needs no tracking. -/
def isNone (m : Mode) : Bool := !m.linear && m.capability.isNone

/-- The binding holds a capability. -/
def hasCapability (m : Mode) : Bool := m.capability.isSome

/-- The text of a mode. -/
def render (m : Mode) : String :=
  match m.linear, m.capability with
  | true, some kind => "linear+capability(" ++ kind.name ++ ")"
  | false, some kind => "capability(" ++ kind.name ++ ")"
  | true, none => "linear"
  | false, none => "none"

end Mode

end ResourceSafety
