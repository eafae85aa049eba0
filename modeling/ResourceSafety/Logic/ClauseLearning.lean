import ResourceSafety.Logic.Sat

/-!
# A SAT solver

The solver decides literals one after the other, and after each it follows the
clauses that are left with a single literal.  When a clause comes out false, the
reasons are resolved into a new clause that says what went wrong, the decisions
that led there are taken back, and the new clause is *learned*.

Every clause it works with is a `Consequence` of the given ones, together with the
proof of that.  Resolution is the only way to get one from others.  So the search
may decide as it likes: a refutation is right because it ends with a clause on
assumptions only, and a valuation is tried out on the given clauses before it is
returned.

The search stops after a number of steps.  Then all valuations are tried.
-/

namespace ResourceSafety.Logic

/-! ## Trying all valuations -/

namespace Valuation

/-- A valuation that makes clauses true and differs from `v` at most on the given
variables. -/
def find? (cs : List Clause) : List Nat → Valuation → Option Valuation
  | [], v => if cs.all (Clause.holds v) then some v else none
  | x :: xs, v =>
    match find? cs xs (v.withValue x false) with
    | some w => some w
    | none => find? cs xs (v.withValue x true)

end Valuation

namespace ClauseLearning

/-! ## Consequences -/

/-- The clauses hold only where the clause holds. -/
def Entails (cs : List Clause) (c : Clause) : Prop :=
  ∀ v : Valuation, (∀ d ∈ cs, d.holds v = true) → c.holds v = true

/-- A clause that follows from the given ones. -/
structure Consequence (cs : List Clause) where
  /-- The clause. -/
  clause : Clause
  /-- It follows. -/
  entailed : Entails cs clause

variable {cs : List Clause}

namespace Consequence

/-- One of the given clauses, each literal once. -/
def given (c : Clause) (h : c ∈ cs) : Consequence cs where
  clause := c.eraseDups
  entailed v hv := by
    obtain ⟨l, mem, holds⟩ := Clause.holds_iff.mp (hv c h)
    exact Clause.holds_iff.mpr ⟨l, List.mem_eraseDups.mpr mem, holds⟩

/-- A literal or its negation. -/
def either (l : Literal) : Consequence cs where
  clause := [l, l.negation]
  entailed v _ := by
    rw [Clause.holds, List.any_cons, List.any_cons, Literal.holds_negation, ← Bool.or_assoc,
      Bool.or_not_self, Bool.true_or]

/-- What follows from two clauses whatever the literal `l` is worth: the one without its
negation, the other without it. -/
def resolve (l : Literal) (c d : Consequence cs) : Consequence cs where
  clause :=
    let kept := c.clause.filter (· != l.negation)
    kept ++ d.clause.filter fun m => m != l && !kept.contains m
  entailed v hv := by
    obtain ⟨k, inC, holdsC⟩ := Clause.holds_iff.mp (c.entailed v hv)
    obtain ⟨m, inD, holdsD⟩ := Clause.holds_iff.mp (d.entailed v hv)
    refine Clause.holds_iff.mpr ?_
    by_cases same : k = l.negation
    · subst same
      have other : m ≠ l := by
        rintro rfl
        rw [Literal.holds_negation, holdsD] at holdsC
        cases holdsC
      by_cases old : (c.clause.filter (· != l.negation)).contains m = true
      · exact ⟨m, List.mem_append_left _ (List.contains_iff_mem.mp old), holdsD⟩
      · refine ⟨m, List.mem_append_right _ (List.mem_filter.mpr ⟨inD, ?_⟩), holdsD⟩
        simp only [Bool.and_eq_true, bne_iff_ne, ne_eq, Bool.not_eq_true']
        exact ⟨other, Bool.eq_false_iff.mpr old⟩
    · exact ⟨k, List.mem_append_left _ (List.mem_filter.mpr ⟨inC, bne_iff_ne.mpr same⟩), holdsC⟩

end Consequence

/-! ## The state of a search -/

/-- What is known of a literal. -/
inductive Truth
  | unknown
  | yes
  | no
deriving DecidableEq, Inhabited

/-- The place of a literal in the tables. -/
def code (l : Literal) : Nat := 2 * l.var + if l.isPositive then 1 else 0

/-- The variables in the order in which they are decided: those that were met in conflicts
lately come last, and are taken first. -/
structure Order where
  /-- The variable before each one. -/
  before : Array Nat
  /-- The variable after each one. -/
  after : Array Nat
  /-- When each variable was last moved to the end. -/
  stamps : Array Nat
  /-- The last variable. -/
  last : Nat
  /-- No variable after this one is open. -/
  cursor : Nat
  /-- The number of moves. -/
  moves : Nat

/-- The state of a search.  Variable zero is not in use. -/
structure Search (cs : List Clause) where
  /-- The clauses, given and learned. -/
  clauses : Array (Consequence cs)
  /-- The two literals of each clause that are looked at. -/
  watched : Array (Literal × Literal)
  /-- The clauses that a literal is looked at in. -/
  watches : Array (List Nat)
  /-- The truth of each literal. -/
  truths : Array Truth
  /-- The last truth of each variable. -/
  phases : Array Bool
  /-- The number of decisions before each variable was settled. -/
  levels : Array Nat
  /-- The clause that settled each variable. -/
  reasons : Array (Option Nat)
  /-- The literals that are true, oldest first. -/
  trail : Array Literal
  /-- The length of the trail before each decision. -/
  decisions : Array Nat
  /-- The first literal of the trail that was not followed up. -/
  pending : Nat
  /-- The order of decisions. -/
  order : Order

namespace Search

/-- What is known of a literal. -/
def truth (s : Search cs) (l : Literal) : Truth := s.truths.getD (code l) .unknown

/-- Makes a literal true. -/
def settle (s : Search cs) (l : Literal) (reason : Option Nat) : Search cs :=
  { s with
    truths := (s.truths.setIfInBounds (code l) .yes).setIfInBounds (code l.negation) .no
    phases := s.phases.setIfInBounds l.var l.isPositive
    levels := s.levels.setIfInBounds l.var s.decisions.size
    reasons := s.reasons.setIfInBounds l.var reason
    trail := s.trail.push l }

/-- Adds a clause, which is looked at in two of its literals. -/
def learn (s : Search cs) (c : Consequence cs) (first second : Literal) : Search cs :=
  let i := s.clauses.size
  { s with
    clauses := s.clauses.push c
    watched := s.watched.push (first, second)
    watches := (s.watches.modify (code first) (i :: ·)).modify (code second) (i :: ·) }

/-! ## Following up -/

/-- Looks at the clauses that a literal has made shorter.  The first clause that came out false
is returned. -/
def visit (l : Literal) : List Nat → Search cs → Search cs × Option Nat
  | [], s => (s, none)
  | i :: rest, s =>
    let (a, b) := s.watched.getD i (l, l)
    let other := if a = l then b else a
    if s.truth other = .yes then
      visit l rest { s with watches := s.watches.modify (code l) (i :: ·) }
    else
      let clause := (s.clauses[i]?.map (·.clause)).getD []
      match clause.find? fun m => m ≠ other && m ≠ l && s.truth m != .no with
      | some m =>
        visit l rest
          { s with
            watched := s.watched.setIfInBounds i (other, m)
            watches := s.watches.modify (code m) (i :: ·) }
      | none =>
        let s := { s with watches := s.watches.modify (code l) (i :: ·) }
        if s.truth other = .no then
          ({ s with watches := s.watches.modify (code l) (rest ++ ·) }, some i)
        else visit l rest (s.settle other (some i))

/-- Follows up the literals of the trail, each step one of them. -/
def propagate : Nat → Search cs → Search cs × Option Nat
  | 0, s => (s, none)
  | fuel + 1, s =>
    match s.trail[s.pending]? with
    | none => (s, none)
    | some l =>
      let l := l.negation
      let here := s.watches.getD (code l) []
      match visit l here { s with pending := s.pending + 1,
                                  watches := s.watches.setIfInBounds (code l) [] } with
      | (s, some i) => (s, some i)
      | (s, none) => propagate fuel s

/-! ## Conflicts -/

/-- The clause that settled a literal. -/
def reason? (s : Search cs) (l : Literal) : Option (Consequence cs) :=
  (s.reasons.getD l.var none).bind (s.clauses[·]?)

/-- The number of decisions before a literal was settled. -/
def level (s : Search cs) (l : Literal) : Nat := s.levels.getD l.var 0

/-- Resolves a false clause with reasons, from the end of the trail, until `done` says that it
will do. -/
def explain (s : Search cs) (done : Clause → Bool) : Nat → Consequence cs → Consequence cs
  | 0, c => c
  | i + 1, c =>
    if done c.clause then c
    else
      match s.trail[i]? with
      | none => c
      | some l =>
        if c.clause.contains l.negation then
          match s.reason? l with
          | some r => explain s done i (.resolve l c r)
          | none => explain s done i c
        else explain s done i c

/-- At most one literal was settled after the last decision. -/
def isAsserting (s : Search cs) (c : Clause) : Bool :=
  (c.filter fun l => s.level l == s.decisions.size).length ≤ 1

end Search

namespace Order

/-- Moves a variable to the end. -/
def touch (o : Order) (isOpen : Bool) (x : Nat) : Order :=
  if x = o.last then o
  else
    let p := o.before.getD x 0
    let n := o.after.getD x 0
    { o with
      before := ((o.before.setIfInBounds n p).setIfInBounds x o.last)
      after := (((o.after.setIfInBounds p n).setIfInBounds o.last x).setIfInBounds x 0)
      stamps := o.stamps.setIfInBounds x (o.moves + 1)
      last := x
      cursor := if isOpen then x else if o.cursor = x then p else o.cursor
      moves := o.moves + 1 }

/-- A variable is open again. -/
def reopen (o : Order) (x : Nat) : Order :=
  if o.stamps.getD o.cursor 0 < o.stamps.getD x 0 then { o with cursor := x } else o

/-- The last variable for which `isOpen` says so. -/
def next? (isOpen : Nat → Bool) (o : Order) : Nat → Order × Option Nat
  | 0 => (o, none)
  | fuel + 1 =>
    if o.cursor = 0 then (o, none)
    else if isOpen o.cursor then (o, some o.cursor)
    else next? isOpen { o with cursor := o.before.getD o.cursor 0 } fuel

end Order

namespace Search

/-- Takes back literals from the end of the trail. -/
def retract : Nat → Search cs → Search cs
  | 0, s => s
  | n + 1, s =>
    match s.trail.back? with
    | none => s
    | some l =>
      retract n
        { s with
          truths := (s.truths.setIfInBounds (code l) .unknown).setIfInBounds (code l.negation)
            .unknown
          trail := s.trail.pop
          order := s.order.reopen l.var }

/-- Takes back all decisions after the first ones. -/
def backtrack (s : Search cs) (level : Nat) : Search cs :=
  match s.decisions[level]? with
  | none => s
  | some size =>
    let s := retract (s.trail.size - size) s
    { s with decisions := s.decisions.take level, pending := size }

/-- Makes a decision. -/
def decide (s : Search cs) (l : Literal) : Search cs :=
  { s with decisions := s.decisions.push s.trail.size }.settle l none

/-- Learns from a conflict. -/
def recover (s : Search cs) (conflict : Consequence cs) : Search cs :=
  let c := s.explain s.isAsserting s.trail.size conflict
  let now := s.decisions.size
  match c.clause.find? (s.level · == now) with
  | none => s.backtrack (now - 1)
  | some l =>
    let others := c.clause.filter (· != l)
    let target := others.foldl (fun n m => max n (s.level m)) 0
    let s := s.backtrack target
    let touched := (conflict.clause ++ c.clause).foldl
      (fun o m => o.touch (s.truth m = .unknown) m.var) s.order
    let s := { s with order := touched }
    let second := (others.find? (s.level · == target)).getD l
    let i := s.clauses.size
    (s.learn c l second).settle l (some i)

/-! ## The search -/

/-- The outcome of a search. -/
inductive Outcome (cs : List Clause)
  /-- These values may do. -/
  | candidate (values : Valuation)
  /-- This clause is false under the assumptions. -/
  | refuted (c : Consequence cs)
  /-- The search stopped. -/
  | stopped

/-- The valuation of the literals that are true. -/
def values (s : Search cs) : Valuation := fun x => s.truths.getD (code (.positive x)) .no = .yes

/-- The consequence at a place. -/
def clauseAt (s : Search cs) (i : Nat) (l : Literal) : Consequence cs :=
  (s.clauses[i]?).getD (.either l)

/-- Searches with the given assumptions. -/
def run (assumptions : Array Literal) : Nat → Search cs → Outcome cs
  | 0, _ => .stopped
  | fuel + 1, s =>
    match s.propagate (s.trail.size + s.phases.size) with
    | (s, some i) =>
      let conflict := s.clauseAt i (.positive 0)
      if s.decisions.isEmpty then
        .refuted (s.explain (·.isEmpty) s.trail.size conflict)
      else run assumptions fuel (s.recover conflict)
    | (s, none) =>
      match assumptions[s.decisions.size]? with
      | some a =>
        match s.truth a with
        | .yes => run assumptions fuel { s with decisions := s.decisions.push s.trail.size }
        | .no =>
          .refuted (s.explain (fun _ => false) s.trail.size
            ((s.reason? a).getD (.either a)))
        | .unknown => run assumptions fuel (s.decide a)
      | none =>
        let truths := s.truths
        match s.order.next? (fun x => truths.getD (code (.positive x)) .yes = .unknown)
            s.phases.size with
        | (_, none) => .candidate s.values
        | (order, some x) =>
          run assumptions fuel
            ({ s with order }.decide ⟨x, s.phases.getD x false⟩)

/-- A search among variables up to `n`, without clauses. -/
def empty (cs : List Clause) (n : Nat) : Search cs where
  clauses := #[]
  watched := #[]
  watches := Array.replicate (2 * n + 2) []
  truths := Array.replicate (2 * n + 2) .unknown
  phases := Array.replicate (n + 1) false
  levels := Array.replicate (n + 1) 0
  reasons := Array.replicate (n + 1) none
  trail := #[]
  decisions := #[]
  pending := 0
  order := {
    before := (Array.range (n + 1)).map (· - 1)
    after := (Array.range (n + 1)).map fun x => if x = n then 0 else x + 1
    stamps := Array.range (n + 1)
    last := n
    cursor := n
    moves := n }

/-- Takes up a given clause.  A clause without literals is returned. -/
def takeUp (s : Search cs) (c : Consequence cs) : Search cs × Option (Consequence cs) :=
  match c.clause with
  | [] => (s, some c)
  | [l] =>
    match s.truth l with
    | .yes => (s, none)
    | .no => (s, some (s.explain (·.isEmpty) s.trail.size c))
    | .unknown =>
      let i := s.clauses.size
      ({ s with clauses := s.clauses.push c, watched := s.watched.push (l, l) }.settle l (some i),
        none)
  | l :: m :: _ => (s.learn c l m, none)

/-- Takes up given clauses. -/
def takeUpAll : (ds : List Clause) → (∀ d ∈ ds, d ∈ cs) → Search cs →
    Search cs × Option (Consequence cs)
  | [], _, s => (s, none)
  | d :: ds, h, s =>
    match s.takeUp (.given d (h d List.mem_cons_self)) with
    | (s, some c) => (s, some c)
    | (s, none) => takeUpAll ds (fun e he => h e (List.mem_cons_of_mem d he)) s

end Search

/-! ## The solver -/

/-- The variables that occur in clauses. -/
def occurring (cs : List Clause) : List Nat := (cs.flatten.map (·.var)).eraseDups

/-- The greatest variable in clauses. -/
def maxVariable (cs : List Clause) : Nat :=
  cs.foldl (fun x c => c.foldl (fun x l => max x l.var) x) 0

/-- The number of steps after which the search stops. -/
def steps : Nat := 100000000

/-- Searches for a valuation of clauses and assumptions. -/
def search (cs : List Clause) (assumptions : List Literal) : Search.Outcome cs :=
  let s := Search.empty cs (max (maxVariable cs) (maxVariable [assumptions]))
  match Search.takeUpAll cs (fun _ h => h) s with
  | (_, some c) => .refuted c
  | (s, none) => s.run assumptions.toArray steps

/-- The answer when all valuations are tried. -/
def exhaust (cs : List Clause) (assumptions : List Literal) : SatAnswer :=
  let cs := cs ++ assumptions.map ([·])
  match Valuation.find? cs (occurring cs) fun _ => false with
  | some v => .satisfiable v
  | none => .unsatisfiable assumptions

/-- The answer on clauses and assumptions. -/
def answer (cs : List Clause) (assumptions : List Literal) : SatAnswer :=
  match search cs assumptions with
  | .candidate v =>
    if cs.all (Clause.holds v) && assumptions.all (Literal.holds v) then .satisfiable v
    else exhaust cs assumptions
  | .refuted c =>
    let failed := c.clause.map Literal.negation
    if failed.all (assumptions.contains ·) then .unsatisfiable failed
    else exhaust cs assumptions
  | .stopped => exhaust cs assumptions

end ClauseLearning

/-- The solver that comes with this library.  It does not look at the clock. -/
def clauseLearning : SatSolver := ⟨fun _ => ClauseLearning.answer⟩

end ResourceSafety.Logic
