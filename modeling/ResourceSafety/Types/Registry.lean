import ResourceSafety.Fault
import ResourceSafety.Types.Ty

/-!
# The type registry

A declared type says what it conforms to, `Copy` or `Linear`, and which
capability its values hold.  The registry of a unit holds its declarations and
decides from them how a binding of a type is tracked.

* A reference never owns what it refers to.
* A tensor is linear and holds the tensor capability.
* A declared type is linear when it says so or holds a capability.
* An application is also linear when one of its arguments is, unless its
  declaration says `Copy`.
* Everything else is copied.

Names of types are never searched for hints.
-/

namespace ResourceSafety

open Text (Bytes)

/-- What a declared type conforms to. -/
inductive Trait
  | copy
  | linear
deriving Repr, DecidableEq

namespace Trait

/-- The name of a trait. -/
def name : Trait → String
  | copy => "Copy"
  | linear => "Linear"

/-- The trait with a name. -/
def ofName? (text : String) : Option Trait := [copy, linear].find? (·.name == text)

end Trait

/-- How values of a type behave under assignment. -/
inductive TypeClass
  | copyable
  | linear
  | reference
deriving Repr, DecidableEq

/-- The name of a class. -/
def TypeClass.name : TypeClass → String
  | copyable => "copyable"
  | linear => "linear"
  | reference => "reference"

/-- A declaration as it is handed in. -/
structure TypeRequest where
  /-- The name of the type. -/
  name : String
  /-- The names of its traits. -/
  traits : List String := []
  /-- The capability of its values. -/
  capability : Option CapabilityKind := none
deriving Repr

/-- A declaration that was accepted. -/
structure TypeDecl where
  /-- The name of the type. -/
  name : String
  /-- Its traits, in the order given. -/
  traits : List Trait
  /-- The capability of its values. -/
  capability : Option CapabilityKind
deriving Repr, DecidableEq

/-- The declarations of a unit, oldest first. -/
structure Registry where
  /-- The declarations. -/
  decls : List TypeDecl := []
deriving Repr, DecidableEq

namespace Registry

/-- The registry without declarations. -/
def empty : Registry := {}

/-- The declaration of a type. -/
def find? (r : Registry) (name : Bytes) : Option TypeDecl :=
  r.decls.find? fun d => Bytes.ofString d.name == name

/-- The names of the declared types in order. -/
def names (r : Registry) : List String := (r.decls.map (·.name)).mergeSort (· ≤ ·)

/-- The traits with the given names. -/
def readTraits (owner : String) : List String → Except Fault (List Trait)
  | [] => .ok []
  | text :: rest =>
    match Trait.ofName? text with
    | none => .error (.invalidType owner ("unknown trait " ++ text))
    | some t => (readTraits owner rest).map (t :: ·)

/-- A kind that names a family of resources. -/
def checkKind (owner : String) : Option CapabilityKind → Except Fault Unit
  | some (.unnamed _) => .error (.invalidType owner "unknown capability kind")
  | _ => .ok ()

/-- A registry with one more declaration.  A name is declared once, a type is
not both `Copy` and `Linear`, and a capability is never copied. -/
def register (r : Registry) (d : TypeRequest) : Except Fault Registry := do
  if d.name == "" then throw (.invalidType d.name "empty type name")
  if r.decls.any (·.name == d.name) then throw (.duplicateType d.name)
  let traits ← readTraits d.name d.traits
  checkKind d.name d.capability
  if traits.contains .copy && traits.contains .linear then
    throw (.invalidType d.name "cannot be both Copy and Linear")
  if traits.contains .copy && d.capability.isSome then
    throw (.invalidType d.name "a capability type cannot be Copy")
  return ⟨r.decls ++ [⟨d.name, traits, d.capability⟩]⟩

/-- The class that a declaration alone decides. -/
def declaredClass? (r : Registry) (name : Bytes) : Option TypeClass := do
  let d ← r.find? name
  if d.traits.contains .linear || d.capability.isSome then some .linear
  else if d.traits.contains .copy then some .copyable
  else none

mutual

/-- The class of a type. -/
def classify (r : Registry) : Ty → TypeClass
  | .reference _ _ => .reference
  | .tensor => .linear
  | .tensorOf _ => .linear
  | .named name => (r.declaredClass? name).getD .copyable
  | .applied name args =>
    match r.declaredClass? name with
    | some c => c
    | none => if anyLinear r args then .linear else .copyable
  | .unit => .copyable
  | .scalar _ _ => .copyable
  | .range _ _ _ => .copyable

/-- One of the types is linear. -/
def anyLinear (r : Registry) : List Ty → Bool
  | [] => false
  | t :: ts => classify r t == .linear || anyLinear r ts

end

/-- The capability that values of a type hold.  A reference does not hold the
capability of what it refers to. -/
def capabilityOf (r : Registry) : Ty → Option CapabilityKind
  | .tensor => some .tensor
  | .tensorOf _ => some .tensor
  | .named name => (r.find? name).bind (·.capability)
  | .applied name _ => (r.find? name).bind (·.capability)
  | _ => none

/-- How a binding of a type is tracked. -/
def mode (r : Registry) (t : Ty) : Mode := ⟨r.classify t == .linear, r.capabilityOf t⟩

end Registry

end ResourceSafety
