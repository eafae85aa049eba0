import ResourceSafety.Logic.Sat

/-!
# Circuits as clauses

A circuit turns conditions on bits into clauses.  Each *gate* is a literal for
the worth of a condition on other literals, with clauses that define it.  Where
the worth is known from the inputs already, there is no gate and no clause.

A *word* is an unsigned number of 64 bits, as a literal for each bit.  Two words
are compared bit by bit.

The first variable of a circuit is true.
-/

namespace ResourceSafety.Logic

/-- The number of bits of a word. -/
def width : Nat := 64

/-- An unsigned number as literals, the least significant bit first. -/
abbrev Bits := Vector Literal width

/-- The clauses of a circuit, and the variables in use. -/
structure Circuit where
  /-- The clauses, newest first. -/
  clauses : List Clause
  /-- The last variable that was made. -/
  nextVar : Nat
  /-- The greatest variable in a clause. -/
  maxVar : Nat
  /-- The literal that is true. -/
  truth : Literal
deriving Repr

/-- A step that builds part of a circuit. -/
abbrev Build := StateM Circuit

namespace Circuit

/-! ## Variables and clauses -/

/-- A variable that is not in use. -/
def fresh : Build Literal :=
  modifyGet fun c => (.positive (c.nextVar + 1), { c with nextVar := c.nextVar + 1 })

/-- Adds a clause. -/
def clause (ms : Clause) : Build Unit :=
  modify fun c =>
    { c with clauses := ms :: c.clauses, maxVar := ms.foldl (fun x m => max x m.var) c.maxVar }

/-- The literal that is false. -/
def falsity (c : Circuit) : Literal := c.truth.negation

/-- A circuit with nothing but the literal that is true. -/
def start : Circuit :=
  let truth := .positive 1
  ((clause [truth]).run { clauses := [], nextVar := 1, maxVar := 0, truth }).2

/-! ## Gates -/

/-- The conjunction of two literals. -/
def and2 (x y : Literal) : Build Literal := do
  let c ← get
  if x = c.falsity ∨ y = c.falsity ∨ x = y.negation then return c.falsity
  if x = c.truth ∨ x = y then return y
  if y = c.truth then return x
  let g ← fresh
  clause [g.negation, x]
  clause [g.negation, y]
  clause [g, x.negation, y.negation]
  return g

/-- The disjunction of two literals. -/
def or2 (x y : Literal) : Build Literal := do
  return (← and2 x.negation y.negation).negation

/-- The literal that two literals are worth the same. -/
def iff (x y : Literal) : Build Literal := do
  let c ← get
  if x = y then return c.truth
  if x = y.negation then return c.falsity
  if x = c.truth then return y
  if x = c.falsity then return y.negation
  if y = c.truth then return x
  if y = c.falsity then return x.negation
  let g ← fresh
  clause [g.negation, x.negation, y]
  clause [g.negation, x, y.negation]
  clause [g, x, y]
  clause [g, x.negation, y.negation]
  return g

/-- The conjunction of literals. -/
def andN (ls : List Literal) : Build Literal := do
  ls.foldlM and2 (← get).truth

/-- The disjunction of literals. -/
def orN (ls : List Literal) : Build Literal := do
  ls.foldlM or2 (← get).falsity

/-! ## Words -/

/-- The word of a number. -/
def constBits (c : Circuit) (n : UInt64) : Bits :=
  Vector.ofFn fun i => if n.toNat.testBit i then c.truth else c.falsity

/-- A word of variables that are not in use. -/
def freshBits : Build Bits :=
  modifyGet fun c =>
    (Vector.ofFn fun i => .positive (c.nextVar + 1 + i), { c with nextVar := c.nextVar + width })

/-- The literal that two words are equal. -/
def eqBits (x y : Bits) : Build Literal := do
  andN (← (x.toList.zip y.toList).mapM fun (a, b) => iff a b)

/-- One bit of a comparison: whether the first word is below the second one, when `lt` says
so of the bits before. -/
def ultStep (lt : Literal) (bits : Literal × Literal) : Build Literal := do
  let below ← and2 bits.1.negation bits.2
  or2 below (← and2 (← iff bits.1 bits.2) lt)

/-- The literal that the first word is below the second one, from the least significant bit
on. -/
def ultBits (x y : Bits) : Build Literal := do
  (x.toList.zip y.toList).foldlM ultStep (← get).falsity

/-! ## Values -/

/-- The value of a literal.  A variable that is in no clause counts as false. -/
def literalValue (c : Circuit) (v : Valuation) (l : Literal) : Bool :=
  if l = c.truth then true
  else if l = c.falsity then false
  else if c.maxVar < l.var then false
  else l.holds v

/-- The number with the given bits, the least significant one first. -/
def natOfBits : List Bool → Nat
  | [] => 0
  | b :: bs => b.toNat + 2 * natOfBits bs

/-- The value of a word. -/
def bitsValue (c : Circuit) (v : Valuation) (w : Bits) : UInt64 :=
  .ofNat (natOfBits (w.toList.map (c.literalValue v)))

end Circuit

end ResourceSafety.Logic
