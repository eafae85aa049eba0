import ResourceSafety.Proofs.Checker.Outline

/-!
# Journals of declarations

A unit keeps its scopes in three places: the names and blocks of its bodies, one tracker for
each body, and the frames of the capability context.  A *journal* is kept beside the unit.  It
writes down what each declaration made, by number, and in which scope.  It follows the requests
and their success only, and never looks at what the unit found.

A unit and its journal are in *lockstep* when the three places say what the journal says.  Then
a name leads to the same declaration in all of them (`Lockstep.leads`).
-/

namespace ResourceSafety

open Logic (Action Formula Solver Term)

namespace CompilationUnit

/-- A request to a unit that is not finished. -/
inductive Request
  | declare (name : String) (type : Option Ty) (site : Span)
  | access (a : Ownership.Access) (name : String) (site : Span)
  | release (name : String) (site : Span)
  | use (name : String) (site : Span)
  | consume (name : String) (site : Span)
  | share (name : String) (site : Span)
  | enterThread (tag : ThreadTag)
  | exitThread
  | sync (site : Span)
  | require (o : Obligation)
  | freshHandle (cancelled : Bool) (text : String)
  | assertShape (cancelled : Bool) (symbol : String) (dims : List UInt64)
  | assume (cancelled : Bool) (fact : Formula Term)
  | enterBlock (site : Span)
  | exitBlock (site : Span)
  | beginFunction (name : String) (site : Span)
  | endFunction (gaveUp : Nat → Bool) (site : Span)
  | beginBranch
  | nextArm
  | endBranch (site : Span)

/-- The request may leave traces when it is refused: it talks to the solver. -/
def Request.isSolving : Request → Bool
  | freshHandle _ _ | assertShape _ _ _ | assume _ _ | endFunction _ _ => true
  | _ => false

variable {σ : Type}

/-- The fault of an action, and the unit after it. -/
def outcome {α : Type} (u : CompilationUnit σ) (a : Action (CompilationUnit σ) α) :
    Option Fault × CompilationUnit σ :=
  match a.perform u with
  | (.ok _, v) => (none, v)
  | (.error fault, v) => (some fault, v)

/-- The fault of a closing, and the unit after it. -/
def swept (u : CompilationUnit σ) (a : StateM (CompilationUnit σ) Sweep) :
    Option Fault × CompilationUnit σ :=
  ((a.run u).1.2, (a.run u).2)

/-- The fault of a request, and the unit after it. -/
def serve [Solver σ] (u : CompilationUnit σ) : Request → Option Fault × CompilationUnit σ
  | .declare name type site => u.outcome (declare name type site)
  | .access a name site => u.outcome (access a name site)
  | .release name site => u.outcome (release name site)
  | .use name site => u.outcome (use name site)
  | .consume name site => u.outcome (consume name site)
  | .share name site => u.outcome (share name site)
  | .enterThread tag => u.outcome (enterThread tag)
  | .exitThread => u.outcome exitThread
  | .sync site => u.outcome (sync site)
  | .require o => u.outcome (require o)
  | .freshHandle cancelled text => u.outcome (freshHandle cancelled text)
  | .assertShape cancelled symbol dims => u.outcome (assertShape cancelled symbol dims)
  | .assume cancelled fact => u.outcome (assume cancelled fact)
  | .enterBlock site => u.outcome (enterBlock site)
  | .exitBlock site => u.swept (exitBlock site)
  | .beginFunction name site => u.outcome (beginFunction name site)
  | .endFunction gaveUp site => u.swept (endFunction gaveUp site)
  | .beginBranch => u.outcome beginBranch
  | .nextArm => u.outcome nextArm
  | .endBranch site => u.outcome (endBranch site)

end CompilationUnit

/-! ## Journals -/

/-- What a declaration made. -/
structure Made where
  /-- What the name was declared as. -/
  declared : Declared
  /-- The number of the ownership binding in the tracker of its body. -/
  binding : Nat
  /-- The number of the capability, for a name that has one. -/
  capability : Option Nat

/-- The number and the name of the capability. -/
def Made.held (m : Made) : Option (Nat × String) := m.capability.map (·, m.declared.name)

/-- The declarations of an open body. -/
structure Page where
  /-- The number of the body. -/
  body : Nat
  /-- What was declared in each of its open scopes, innermost scope first. -/
  scopes : List (List Made)

/-- The declarations of the open bodies, innermost body first. -/
abbrev Journal := List Page

namespace Journal

/-- The declaration of a name in the innermost scope that holds it, with its page. -/
def find? (j : Journal) (name : String) : Option (Page × Made) :=
  j.findSome? fun p => (p.scopes.flatten.find? (·.declared.name == name)).map (p, ·)

/-- The scopes of all bodies, innermost first. -/
def scopes (j : Journal) : List (List Made) := j.flatMap (·.scopes)

/-- The journal with the scopes of its innermost page changed. -/
def onPage (f : List (List Made) → List (List Made)) : Journal → Journal
  | [] => []
  | p :: rest => { p with scopes := f p.scopes } :: rest

/-- The scopes with one more declaration in the innermost one. -/
def write (m : Made) : List (List Made) → List (List Made)
  | [] => []
  | s :: rest => (s ++ [m]) :: rest

/-- The journal of an empty unit. -/
def blank : Journal := [⟨0, [[]]⟩]

end Journal

namespace CompilationUnit

variable {σ : Type} {u v : CompilationUnit σ} {j : Journal}

/-- What a declaration makes when it succeeds. -/
def made (u : CompilationUnit σ) (name : String) (type : Option Ty) (site : Span) : Made where
  declared := u.declared name type site
  binding := u.current.tracker.next
  capability :=
    if (u.declared name type site).mode.hasCapability then some u.capabilities.table.length
    else none

/-- The journal after a request to `u` that succeeded. -/
def noted (u : CompilationUnit σ) (j : Journal) : Request → Journal
  | .declare name type site => j.onPage (Journal.write (u.made name type site))
  | .enterBlock _ => j.onPage ([] :: ·)
  | .exitBlock _ => j.onPage List.tail
  | .beginFunction _ _ => ⟨u.nextBody, [[]]⟩ :: j
  | .endFunction _ _ => j.tail
  | _ => j

/-- The unit and its journal after one more request. -/
def follow [Solver σ] (c : CompilationUnit σ × Journal) (r : Request) :
    CompilationUnit σ × Journal :=
  match c.1.serve r with
  | (none, v) => (v, c.1.noted c.2 r)
  | (some _, v) => (v, c.2)

/-- The unit and its journal after requests, whether or not they succeed. -/
def followAll [Solver σ] (u : CompilationUnit σ) (rs : List Request) :
    CompilationUnit σ × Journal :=
  rs.foldl follow (u, Journal.blank)

end CompilationUnit

/-! ## Lockstep -/

/-- The page says what the outline of the body says. -/
structure Page.Describes (p : Page) (b : BodyOutline) : Prop where
  body : b.id = p.body
  names : b.blocks.map (·.names) ++ [b.names] = p.scopes.map (·.map Made.declared)
  bindings : b.scopes = p.scopes.map (·.map fun m => (m.binding, m.declared.name))

namespace CompilationUnit

variable {σ : Type} {u v : CompilationUnit σ} {j : Journal}

/-- The unit, its trackers and its capability context say what the journal says, and a branch is
open in the context exactly where one is open in the unit. -/
structure Lockstep (u : CompilationUnit σ) (j : Journal) : Prop extends u.Counted where
  pages : List.Forall₂ Page.Describes j u.outline.bodies
  held : u.outline.held = j.scopes.map (·.filterMap Made.held)
  marked : ∀ s ∈ j.scopes, ∀ m ∈ s, m.capability.isSome = m.declared.mode.hasCapability
  branches : u.capabilities.branches.length = u.forks.length
  live : u.finished = false

/-! ## Look-ups -/

end CompilationUnit

theorem Page.Describes.length_scopes {p : Page} {b : BodyOutline} (h : p.Describes b) :
    p.scopes.length = b.blocks.length + 1 := by
  simpa using (congrArg List.length h.names).symm

theorem Body.find?_eq (b : Body) (name : String) :
    b.find? name = (b.blocks.map (·.names) ++ [b.names]).flatten.find? (·.name == name) := by
  simp [Body.find?, List.find?_append, List.find?_flatten, List.findSome?_map, Function.comp_def]

/-- A name means in the body what its page says. -/
theorem Page.Describes.find?_body {p : Page} {b : Body} (h : p.Describes b.outline)
    (name : String) :
    b.find? name = (p.scopes.flatten.find? (·.declared.name == name)).map Made.declared := by
  rw [Body.find?_eq, show b.blocks.map (·.names) ++ [b.names] = _ from h.names,
    ← List.map_flatten, List.find?_map]
  rfl

/-- A name means in the tracker what its page says. -/
theorem Page.Describes.find?_tracker {p : Page} {b : Body} (h : p.Describes b.outline)
    (name : String) : (b.tracker.find? name).map (fun x => (x.id, x.name)) =
      (p.scopes.flatten.find? (·.declared.name == name)).map
        fun m => (m.binding, m.declared.name) := by
  have row : b.tracker.bindings.map (fun x => (x.id, x.name)) =
      p.scopes.flatten.map fun m => (m.binding, m.declared.name) := by
    have places := congrArg List.flatten h.bindings
    rw [← List.map_flatten] at places
    rw [← places]
    show _ = (Cells.outline b.tracker.cells).flatten
    rw [Cells.flatten_outline, Ownership.Tracker.flatten_cells, List.map_map]
    rfl
  have found := congrArg (List.find? (·.2 == name)) row
  rw [List.find?_map, List.find?_map] at found
  exact found

theorem Journal.find?_scopes (j : Journal) (name : String) :
    j.scopes.flatten.find? (·.declared.name == name) = (j.find? name).map Prod.snd := by
  induction j with
  | nil => rfl
  | cons p rest ih =>
    rw [Journal.find?, List.findSome?_cons]
    show ((p.scopes ++ Journal.scopes rest).flatten).find? _ = _
    rw [List.flatten_append, List.find?_append, ih]
    cases p.scopes.flatten.find? (·.declared.name == name) <;> rfl

/-- The body that a name is found in has the page that it is found on. -/
theorem Journal.find?_bodies {j : Journal} {l : List Body}
    (row : List.Forall₂ Page.Describes j (l.map Body.outline)) (name : String) :
    match j.find? name with
    | none => l.findSome? (fun b => (b.find? name).map (b, ·)) = none
    | some (p, m) => ∃ b ∈ l, l.findSome? (fun b => (b.find? name).map (b, ·)) =
        some (b, m.declared) ∧ p.Describes b.outline ∧
        p.scopes.flatten.find? (·.declared.name == name) = some m := by
  induction l generalizing j with
  | nil =>
    cases row
    rfl
  | cons b l ih =>
    cases row with
    | @cons p _ rest _ describes others =>
      simp only [Journal.find?, List.findSome?_cons, describes.find?_body name]
      cases here : p.scopes.flatten.find? (·.declared.name == name) with
      | some m => exact ⟨b, List.mem_cons_self, rfl, describes, here⟩
      | none =>
        have later := ih others
        simp only [Journal.find?] at later
        simp only [Option.map_none]
        split
        next none =>
          rw [none] at later
          exact later
        next p' m found =>
          rw [found] at later
          obtain ⟨b', mem, located, rest⟩ := later
          exact ⟨b', List.mem_cons_of_mem _ mem, located, rest⟩

/-- The first hit of a search stays the first hit of a narrower one. -/
theorem find?_narrow {α : Type} {l : List α} {p q : α → Bool} {a : α} (h : l.find? p = some a)
    (narrow : ∀ x, q x = true → p x = true) (hit : q a = true) : l.find? q = some a := by
  induction l with
  | nil => cases h
  | cons x l ih =>
    rw [List.find?_cons] at h ⊢
    cases here : p x with
    | true =>
      simp only [here, Option.some.injEq] at h
      simp [h, hit]
    | false =>
      simp only [here] at h
      have miss : q x = false := Bool.eq_false_iff.mpr fun hx => by simp [narrow x hx] at here
      simpa [miss] using ih h

namespace CompilationUnit

variable {σ : Type} {u v : CompilationUnit σ} {j : Journal}

/-- The capability that a name means is that of its latest declaration. -/
theorem Lockstep.find?_capability (h : u.Lockstep j) {name : String} {p : Page} {m : Made}
    {k : Nat} (found : j.find? name = some (p, m)) (held : m.capability = some k) :
    ∃ y, u.capabilities.find? name = some y ∧ y.id = k := by
  have first : j.scopes.flatten.find? (·.declared.name == name) = some m := by
    rw [Journal.find?_scopes, found]
    rfl
  have named : m.declared.name = name := by simpa using List.find?_some first
  have own : m.held = some (k, name) := by simp [Made.held, held, named]
  -- a declaration without a capability in between does not hide that of this one
  have narrow := find?_narrow (q := fun m => m.held.any (·.2 == name)) first
    (fun x hx => by
      obtain ⟨k', -, hx⟩ : ∃ k', x.capability = some k' ∧ x.declared.name = name := by
        simpa [Made.held, Option.any_eq_true] using hx
      simpa using hx)
    (by simp [own])
  have places : u.capabilities.cells.outline.flatten.find? (·.2 == name) = some (k, name) := by
    rw [show u.capabilities.cells.outline = _ from h.held, ← List.filterMap_flatten,
      List.find?_filterMap, narrow]
    exact own
  rw [Cells.flatten_outline, List.find?_map] at places
  obtain ⟨c, hc, same⟩ := Option.map_eq_some_iff.mp places
  obtain ⟨y, hy, rfl⟩ := Option.map_eq_some_iff.mp
    ((Capability.Context.find?_map_cell u.capabilities name).trans hc)
  exact ⟨y, hy, congrArg Prod.fst same⟩

/-- What a name leads to: a body with the declaration, the ownership binding, and the capability
if the declaration made one.  They bear the numbers that the journal has. -/
structure Leads (u : CompilationUnit σ) (name : String) (p : Page) (m : Made) (b : Body)
    (x : Ownership.Binding) (y : Option Capability.Binding) : Prop where
  located : u.locate? name = some (b, m.declared)
  named : m.declared.name = name
  body : b.id = p.body
  bound : b.tracker.find? name = some x
  binding : x.id = m.binding
  held : ∀ y' ∈ y, u.capabilities.find? name = some y'
  capability : y.map (·.id) = m.capability
  marked : y.isSome = m.declared.mode.hasCapability

theorem Lockstep.leads (h : u.Lockstep j) {name : String} {p : Page} {m : Made}
    (found : j.find? name = some (p, m)) : ∃ b x y, u.Leads name p m b x y := by
  have here := Journal.find?_bodies h.pages name
  rw [found] at here
  obtain ⟨b, -, located, describes, first⟩ := here
  have bound := describes.find?_tracker name
  rw [first] at bound
  obtain ⟨x, hx, same⟩ := Option.map_eq_some_iff.mp bound
  have named : m.declared.name = name := by simpa using List.find?_some first
  have marked : m.capability.isSome = m.declared.mode.hasCapability := by
    have mem : m ∈ j.scopes.flatten := by
      refine List.mem_of_find?_eq_some (p := (·.declared.name == name)) ?_
      rw [Journal.find?_scopes, found]
      rfl
    obtain ⟨s, hs, hm⟩ := List.mem_flatten.mp mem
    exact h.marked s hs m hm
  have start : ∀ y : Option Capability.Binding,
      (∀ y' ∈ y, u.capabilities.find? name = some y') → y.map (·.id) = m.capability →
      u.Leads name p m b x y := fun y held capability =>
    ⟨located, named, describes.body, hx, congrArg Prod.fst same, held, capability, by
      rw [← marked, ← capability, Option.isSome_map]⟩
  cases capability : m.capability with
  | none => exact ⟨b, x, none, start none (fun _ mem => nomatch mem) capability.symm⟩
  | some k =>
    obtain ⟨y, hy, id⟩ := h.find?_capability found capability
    refine ⟨b, x, some y, start (some y) (fun y' mem => ?_) ?_⟩
    · rw [← Option.mem_some_iff.mp mem]
      exact hy
    · rw [capability, Option.map_some, id]

theorem Lockstep.find?_eq_none (h : u.Lockstep j) {name : String} :
    j.find? name = none ↔ u.locate? name = none := by
  have here := Journal.find?_bodies h.pages name
  constructor
  · intro none
    rw [none] at here
    exact here
  · intro none
    cases found : j.find? name with
    | none => rfl
    | some pm =>
      rw [found] at here
      obtain ⟨b, -, located, -⟩ := here
      exact absurd (none.symm.trans located) (by simp)

/-- There are as many frames as scopes. -/
theorem Lockstep.frames (h : u.Lockstep j) : u.capabilities.frames.length = u.scopeCount := by
  have pages : ∀ {j : Journal} {l : List Body},
      List.Forall₂ Page.Describes j (l.map Body.outline) →
      j.scopes.length = (l.flatMap (·.blocks)).length + l.length := by
    intro j l row
    induction l generalizing j with
    | nil =>
      cases row
      rfl
    | cons b l ih =>
      cases row with
      | cons describes others =>
        have first := describes.length_scopes
        have rest := ih others
        simp only [Journal.scopes, Body.outline, List.flatMap_cons, List.length_append,
          List.length_cons] at first rest ⊢
        omega
  have held := congrArg List.length h.held
  rw [List.length_map, pages h.pages] at held
  simpa [outline, Cells.outline, Capability.Context.cells, scopeCount] using held

end CompilationUnit

end ResourceSafety
