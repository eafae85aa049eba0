import ResourceSafety.Ownership.Tracker
import ResourceSafety.Yaml.Decode

/-!
# Traces as they are written

A trace is written as a YAML document: the name of the unit, its source text,
the types it declares, and its steps.  A step is a record.  One of its fields
names what the step does, and the others say where, of which type, and with
which inner steps.

Reading a document checks the kinds of its values and the names of its fields.
Whether a step makes sense is looked at afterwards, so an *entry* keeps all the
operations that a step was written with.
-/

namespace ResourceSafety

open Yaml (Node Reading)

/-- A handle and the dimensions it is said to have. -/
structure ShapeEntry where
  /-- The handle. -/
  handle : String := ""
  /-- The dimensions. -/
  dims : List UInt64 := []
deriving Repr, DecidableEq

/-- A literal or a handle and the bounds it is to lie in. -/
structure RangeEntry where
  /-- The literal. -/
  value : Option UInt64 := none
  /-- The handle. -/
  handle : String := ""
  /-- The lower bound. -/
  lo : UInt64 := 0
  /-- The upper bound. -/
  hi : UInt64 := 0
deriving Repr, DecidableEq

/-- What a step does.  The arms of a branch hold inner steps of type `α`. -/
inductive Operation (α : Type)
  | declare (name : String)
  | access (kind : Ownership.Access) (name : String)
  | release (name : String)
  | use (name : String)
  | consume (name : String)
  | share (name : String)
  | function (name : String)
  | block
  | thread (tag : String)
  | sync
  | branch (arms : List (List α))
  | fresh (handle : String)
  | assertShape (shape : ShapeEntry)
  | proveRange (range : RangeEntry)
  | proveShape (shape : ShapeEntry)
deriving Repr

/-- The name under which an operation is written. -/
def Operation.name {α : Type} : Operation α → String
  | declare _ => "declare"
  | access .read _ => "read"
  | access .move _ => "move"
  | access (.borrow false) _ => "borrow"
  | access (.borrow true) _ => "borrow_mut"
  | release _ => "release"
  | use _ => "use"
  | consume _ => "consume"
  | share _ => "share"
  | function _ => "function"
  | block => "block"
  | thread _ => "thread"
  | sync => "sync"
  | branch _ => "branch"
  | fresh _ => "fresh"
  | assertShape _ => "assert_shape"
  | proveRange _ => "prove_range"
  | proveShape _ => "prove_shape"

/-- A step as it is written. -/
structure Entry where
  /-- The operations, in the order they are written. -/
  operations : List (Operation Entry) := []
  /-- The type of a declaration. -/
  type : String := ""
  /-- Where the step is. -/
  site : String := ""
  /-- Where what it opens ends. -/
  stop : String := ""
  /-- The steps inside it. -/
  body : List Entry := []

/-- A type as it is written. -/
structure TypeEntry where
  /-- The name. -/
  name : String := ""
  /-- The traits. -/
  traits : List String := []
  /-- The capability, as a name or an attribute. -/
  capability : String := ""
deriving Repr, DecidableEq

/-- A trace as it is written. -/
structure Draft where
  /-- The unit. -/
  unit : String := ""
  /-- The program text. -/
  source : String := ""
  /-- The types. -/
  types : List TypeEntry := []
  /-- The steps. -/
  steps : List Entry := []

/-! ## Reading -/

/-- A type from a node. -/
def TypeEntry.ofNode (n : Node) : Reading (Option TypeEntry) :=
  n.fillRecord "script.TypeDecl" {} fun t name v _ =>
    match name with
    | "name" => some (({ t with name := · }) <$> v.fillText t.name)
    | "traits" => some (({ t with traits := · }) <$> v.fillList "string" fun m _ => m.text?)
    | "capability" => some (({ t with capability := · }) <$> v.fillText t.capability)
    | _ => none

/-- A shape from a node. -/
def ShapeEntry.ofNode (n : Node) : Reading (Option ShapeEntry) :=
  n.fillRecord "script.ShapeStep" {} fun s name v _ =>
    match name with
    | "handle" => some (({ s with handle := · }) <$> v.fillText s.handle)
    | "dims" => some (({ s with dims := · }) <$> v.fillList "uint64" fun m _ => m.word?)
    | _ => none

/-- A range from a node. -/
def RangeEntry.ofNode (n : Node) : Reading (Option RangeEntry) :=
  n.fillRecord "script.RangeStep" {} fun r name v _ =>
    match name with
    | "value" => some (({ r with value := · }) <$> v.fillOption "uint64" Node.word?)
    | "handle" => some (({ r with handle := · }) <$> v.fillText r.handle)
    | "lo" => some (({ r with lo := · }) <$> v.fillWord r.lo)
    | "hi" => some (({ r with hi := · }) <$> v.fillWord r.hi)
    | _ => none

namespace Entry

/-- What a step is called in messages. -/
def recordName : String := "script.Step"

/-- The entry with one more operation. -/
def add (e : Entry) (op : Operation Entry) : Entry := { e with operations := e.operations ++ [op] }

/-- The entry after an operation on a name was read.  The empty name means that
the operation is not there. -/
def addNamed (e : Entry) (op : String → Operation Entry) (v : Node) : Reading Entry :=
  (fun name => if name == "" then e else e.add (op name)) <$> v.fillText ""

/-- The entry after an operation without a name was read. -/
def addMarked (e : Entry) (op : Operation Entry) (v : Node) : Reading Entry :=
  (fun there => if there then e.add op else e) <$> v.fillBool false

/-- The entry after an operation with a record was read. -/
def addRecord {α : Type} (e : Entry) (target : String) (read : Node → Reading (Option α))
    (op : α → Operation Entry) (v : Node) : Reading Entry :=
  (fun
    | some r => e.add (op r)
    | none => e) <$> v.fillOption target read

/-- The entry after a field without inner steps was read, if there is one of that
name. -/
def addField (e : Entry) (name : String) (v : Node) : Option (Reading Entry) :=
  match name with
  | "declare" => some (e.addNamed .declare v)
  | "read" => some (e.addNamed (.access .read) v)
  | "move" => some (e.addNamed (.access .move) v)
  | "borrow" => some (e.addNamed (.access (.borrow false)) v)
  | "borrow_mut" => some (e.addNamed (.access (.borrow true)) v)
  | "release" => some (e.addNamed .release v)
  | "use" => some (e.addNamed .use v)
  | "consume" => some (e.addNamed .consume v)
  | "share" => some (e.addNamed .share v)
  | "function" => some (e.addNamed .function v)
  | "block" => some (e.addMarked .block v)
  | "thread" => some (e.addNamed .thread v)
  | "sync" => some (e.addMarked .sync v)
  | "fresh" => some (e.addNamed .fresh v)
  | "assert_shape" => some (e.addRecord "script.ShapeStep" ShapeEntry.ofNode .assertShape v)
  | "prove_range" => some (e.addRecord "script.RangeStep" RangeEntry.ofNode .proveRange v)
  | "prove_shape" => some (e.addRecord "script.ShapeStep" ShapeEntry.ofNode .proveShape v)
  | "type" => some (({ e with type := · }) <$> v.fillText e.type)
  | "at" => some (({ e with site := · }) <$> v.fillText e.site)
  | "end" => some (({ e with stop := · }) <$> v.fillText e.stop)
  | _ => none

mutual

/-- The steps that a node holds. -/
def listOfNode (n : Node) : Reading (List Entry) :=
  n.fillList recordName fun m _ => ofNode m
termination_by sizeOf n

/-- The arms of a branch.  An arm that denotes nothing has no steps. -/
def armsOfNode (n : Node) : Reading (List (List Entry)) :=
  n.fillList ("[]" ++ recordName) fun m _ => some <$> listOfNode m
termination_by sizeOf n

/-- One step; nothing inside when the node denotes nothing. -/
def ofNode (n : Node) : Reading (Option Entry) :=
  n.fillRecord recordName {} fun e name v _ =>
    match name with
    | "body" => some (({ e with body := · }) <$> listOfNode v)
    | "branch" =>
      some ((fun arms => if arms.isEmpty then e else e.add (.branch arms)) <$> armsOfNode v)
    | name => e.addField name v
termination_by sizeOf n

end

end Entry

/-- A trace from a node. -/
def Draft.ofNode (n : Node) : Reading Draft :=
  (·.getD {}) <$> n.fillRecord "script.Script" {} fun d name v _ =>
    match name with
    | "unit" => some (({ d with unit := · }) <$> v.fillText d.unit)
    | "source" => some (({ d with source := · }) <$> v.fillText d.source)
    | "types" =>
      some (({ d with types := · }) <$> v.fillList "script.TypeDecl" fun m _ => TypeEntry.ofNode m)
    | "steps" => some (({ d with steps := · }) <$> Entry.listOfNode v)
    | _ => none

end ResourceSafety
