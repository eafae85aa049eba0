import ResourceSafety.Capability.Context
import ResourceSafety.Discharge.Discharger
import ResourceSafety.Ownership.Tracker
import ResourceSafety.Types.Registry

/-!
# The state of a compilation unit

A unit is walked once.  It is a stack of *bodies*: the root, and inside it the
functions that are open.  Each body has its own ownership tracker and a stack of
blocks.  A name means the declaration in the innermost block or body that holds
it.

The capabilities of all bodies live in one context, with one frame for each
body and each block.  The obligations of the unit go to one discharger.

Requests are actions: a request that is refused still leaves a state behind.
Findings never stop the walk.  They are collected, each key once.
-/

namespace ResourceSafety

open Logic (Action Solver)

/-- How a unit is checked. -/
structure CheckerConfig where
  /-- Races are reported at the access that completes them. -/
  strict : Bool := false
  /-- An undecided obligation is an error. -/
  unknownAsError : Bool := false
  /-- How obligations are decided. -/
  solver : SolverConfig := {}
deriving Repr, DecidableEq

/-- A declared name. -/
structure Declared where
  /-- The name. -/
  name : String
  /-- Its type, where one is known. -/
  type : Option Ty
  /-- Where it is declared. -/
  definedAt : Span
  /-- How it is tracked. -/
  mode : Mode

/-- An open block. -/
structure Block where
  /-- Where it begins. -/
  span : Span
  /-- The names declared in it. -/
  names : List Declared := []

/-- An open function, or the root of the unit. -/
structure Body where
  /-- The number that tells it from every other body of the unit. -/
  id : Nat
  /-- The name of the function, or of the unit. -/
  name : String
  /-- Where it begins. -/
  span : Span := .zero
  /-- The ownership of the names declared in it. -/
  tracker : Ownership.Tracker := .empty
  /-- The names declared in it outside every block. -/
  names : List Declared := []
  /-- The open blocks, innermost first. -/
  blocks : List Block := []

namespace Body

/-- The declaration that a name means within the body. -/
def find? (b : Body) (name : String) : Option Declared :=
  (b.blocks.findSome? fun k => k.names.find? (·.name == name)) <|>
    b.names.find? (·.name == name)

/-- The names of the innermost scope of the body. -/
def innerNames (b : Body) : List Declared :=
  match b.blocks with
  | k :: _ => k.names
  | [] => b.names

/-- The body with one more name in its innermost scope. -/
def addName (b : Body) (d : Declared) : Body :=
  match b.blocks with
  | k :: rest => { b with blocks := { k with names := k.names ++ [d] } :: rest }
  | [] => { b with names := b.names ++ [d] }

end Body

/-- The tracked state of everything at one point of the walk. -/
structure Moment where
  /-- The ownership records, by the number of the body. -/
  bodies : List (Nat × Ownership.Snapshot)
  /-- The lifecycles of the capabilities. -/
  capabilities : Capability.Snapshot

/-- A branch whose arms are still being walked. -/
structure Fork where
  /-- The state that every arm starts from. -/
  entry : Moment
  /-- The states at the ends of the finished arms, oldest first. -/
  arms : List Moment := []

/-- The state of a unit whose obligations go to sessions of type `σ`. -/
structure CompilationUnit (σ : Type) where
  /-- The name of the unit. -/
  name : String
  /-- The types it knows. -/
  registry : Registry
  /-- An undecided obligation is an error. -/
  unknownAsError : Bool
  /-- The capabilities. -/
  capabilities : Capability.Context
  /-- The obligations. -/
  discharger : Discharger σ
  /-- The body around everything. -/
  root : Body
  /-- The open functions, innermost first. -/
  functions : List Body := []
  /-- The number of the next body. -/
  nextBody : Nat := 1
  /-- The open branches, innermost first. -/
  forks : List Fork := []
  /-- The functions that were closed, oldest first. -/
  decls : List Decl := []
  /-- The findings, oldest first, each key once. -/
  violations : List Violation := []
  /-- The unit takes no more requests. -/
  finished : Bool := false

namespace CompilationUnit

variable {σ : Type}

/-- A unit before the walk. -/
def fresh (name : String) (registry : Registry) (config : CheckerConfig) (run : String)
    (opening : Bool → Except Fault σ) : CompilationUnit σ :=
  { name, registry, unknownAsError := config.unknownAsError
    capabilities := .empty config.strict
    discharger := { config := config.solver, opening, ledger := { run, unit := name } }
    root := { id := 0, name } }

/-! ## Bodies -/

/-- The open bodies, innermost first. -/
def bodies (u : CompilationUnit σ) : List Body := u.functions ++ [u.root]

/-- The innermost body. -/
def current (u : CompilationUnit σ) : Body :=
  match u.functions with
  | b :: _ => b
  | [] => u.root

/-- The unit with every open body changed. -/
def mapBodies (u : CompilationUnit σ) (f : Body → Body) : CompilationUnit σ :=
  { u with functions := u.functions.map f, root := f u.root }

/-- The unit with one body changed. -/
def changeBody (u : CompilationUnit σ) (id : Nat) (f : Body → Body) : CompilationUnit σ :=
  u.mapBodies fun b => if b.id = id then f b else b

/-- The unit with its innermost body changed. -/
def changeCurrent (u : CompilationUnit σ) (f : Body → Body) : CompilationUnit σ :=
  match u.functions with
  | b :: rest => { u with functions := f b :: rest }
  | [] => { u with root := f u.root }

/-- The number of open bodies and blocks. -/
def scopeCount (u : CompilationUnit σ) : Nat :=
  (u.bodies.flatMap (·.blocks)).length + u.bodies.length

/-- The declaration that a name means, with its body. -/
def locate? (u : CompilationUnit σ) (name : String) : Option (Body × Declared) :=
  u.bodies.findSome? fun b => (b.find? name).map (b, ·)

/-- The declaration that a name means. -/
def find? (u : CompilationUnit σ) (name : String) : Option Declared :=
  (u.locate? name).map Prod.snd

/-- The declaration that a name means with its body, or a fault. -/
def locate (u : CompilationUnit σ) (name : String) : Except Fault (Body × Declared) :=
  match u.locate? name with
  | some found => .ok found
  | none => .error (.unknownBinding name)

/-- The ownership state of a name. -/
def ownershipState (u : CompilationUnit σ) (name : String) : Except Fault Ownership.State := do
  let (body, _) ← u.locate name
  return (← body.tracker.lookup name).record.state

/-- The capability state of a name. -/
def capabilityState (u : CompilationUnit σ) (name : String) : Except Fault Capability.State := do
  let (_, declared) ← u.locate name
  if !declared.mode.hasCapability then throw (.unknownBinding name)
  return (← u.capabilities.lookup name).life.state

/-! ## Findings -/

/-- The unit with a finding collected.  One with a known key is dropped. -/
def collect (u : CompilationUnit σ) (v : Violation) : CompilationUnit σ :=
  if u.violations.any (·.key == v.key) then u else { u with violations := u.violations ++ [v] }

/-- The unit with findings collected in order. -/
def collectAll (u : CompilationUnit σ) (vs : List Violation) : CompilationUnit σ :=
  vs.foldl collect u

/-- What was observed: the work of the solver, then the findings. -/
def observed (u : CompilationUnit σ) : List Observation :=
  u.discharger.observed ++ u.violations.map (.violation ·.kind)

/-! ## Requests -/

/-- A finished unit refuses every request. -/
def requireLive : Action (CompilationUnit σ) Unit := do
  let u ← get
  if u.finished then throw (.unitFinished u.name)

/-- A request to the discharger. -/
def onDischarger {α : Type} (a : Action (Discharger σ) α) : Action (CompilationUnit σ) α := do
  let (r, d) := a.perform (← get).discharger
  modify fun u => { u with discharger := d }
  MonadExcept.ofExcept r

/-- A request to the capability context, which stays as it was when it refuses. -/
def onCapabilities (f : Capability.Context → Except Fault Capability.Context) :
    Action (CompilationUnit σ) Unit := do
  let c ← MonadExcept.ofExcept (f (← get).capabilities)
  modify fun u => { u with capabilities := c }

end CompilationUnit

end ResourceSafety
