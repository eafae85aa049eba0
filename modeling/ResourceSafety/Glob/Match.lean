import ResourceSafety.Glob.Pattern

/-!
# Patterns on texts

A pattern is held against a name from left to right.  Two marks leave a choice,
and each remembers one place to come back to: a `*` the place after it, and a
`**/` at the start of an element the place after that.  When the two do not
agree, the last `*` takes one more character of the same element.  When it
cannot, the last `**/` takes one more element.  Older choices are never taken up
again, so a few names that a pattern could stand for are missed.

A brace tries its parts one after the other, each put in place of the brace.
A part starts an element of its own for the marks in it.

The answer is missing when the pattern cannot be read.  With `strict` the part of
a pattern that was not reached must be readable too.
-/

namespace ResourceSafety.Glob

/-! ## Classes -/

/-- A character of a class and what follows it.  A backslash takes the next one. -/
def classChar (c : Char) (cs : List Char) : Char × List Char :=
  if c == '\\' then
    match cs with
    | d :: ds => (d, ds)
    | [] => ('\ufffd', [])
  else (c, cs)

theorem classChar_length (c : Char) (cs : List Char) : (classChar c cs).2.length ≤ cs.length := by
  fun_cases classChar c cs <;> simp

/-- The range that a hyphen makes of the character before it and the one after it. -/
def classRange? (last : Option Char) (c : Char) (cs : List Char) :
    Option (Char × Char × List Char) :=
  match last, cs with
  | some lo, d :: ds => if c == '-' && d != ']' then some (lo, classChar d ds) else none
  | _, _ => none

theorem classRange?_length {last : Option Char} {c : Char} {cs : List Char}
    {r : Char × Char × List Char} (h : classRange? last c cs = some r) :
    r.2.2.length ≤ cs.length := by
  unfold classRange? at h
  split at h
  · split at h
    · simp only [Option.some.injEq] at h
      subst h
      exact Nat.le_succ_of_le (classChar_length _ _)
    · simp at h
  · simp at h

/-- Whether a character is in a class, and where in the class that was settled.  A
range holds the characters between its ends, and `last` is the character that
the next range can start from. -/
def inClass (x : Char) (last : Option Char) : List Char → Bool × List Char
  | [] => (false, [])
  | c :: cs =>
    if c == ']' then (false, c :: cs)
    else match _h : classRange? last c cs with
      | some (lo, hi, rest) => if lo ≤ x && x ≤ hi then (true, rest) else inClass x none rest
      | none =>
        let d := classChar c cs
        if d.1 == x then (true, d.2) else inClass x (some d.1) d.2
termination_by cs => cs.length
decreasing_by
  · exact Nat.lt_succ_of_le (classRange?_length ‹_›)
  · exact Nat.lt_succ_of_le (classChar_length _ _)

/-! ## Attempts -/

/-- A place to come back to: what is left of the pattern and of the name. -/
structure Retry where
  pattern : List Char
  name : List Char
deriving Repr, DecidableEq

/-- An attempt to hold a pattern against a name. -/
structure Attempt where
  /-- What is left of the pattern. -/
  pattern : List Char
  /-- What is left of the name. -/
  name : List Char
  /-- An element of the pattern starts here. -/
  fresh : Bool := true
  /-- The pattern has a backslash before this place. -/
  hidden : Bool := false
  /-- Where the last `*` comes back to. -/
  star : Option Retry := none
  /-- Where the last `**/` comes back to. -/
  levels : Option Retry := none
deriving Repr, DecidableEq

/-- What becomes of an attempt. -/
inductive Step
  /-- It goes on. -/
  | goOn (a : Attempt)
  /-- It goes on in one of several ways. -/
  | choose (as : List Attempt)
  /-- It is over.  Nothing is said when the pattern cannot be read. -/
  | done (answer : Option Bool)
  /-- The name does not agree with the pattern.  What is left of the pattern may
  still hold a flaw. -/
  | stuck (rest : List Char)
deriving Repr, DecidableEq

namespace Attempt

/-- The attempt after a mark or a character that took one character of the name. -/
def past (a : Attempt) (pattern name : List Char) : Attempt :=
  { a with pattern, name, fresh := false, hidden := false }

/-- The attempt after a `*`, which has taken nothing yet. -/
def pastStar (a : Attempt) (pattern : List Char) : Attempt :=
  { a.past pattern a.name with star := some ⟨pattern, a.name⟩ }

/-- The attempt after a `**/`, which has taken nothing yet. -/
def pastLevels (a : Attempt) (pattern : List Char) : Attempt :=
  { pattern, name := a.name, levels := some ⟨pattern, a.name⟩ }

/-- A part in place of the brace that the pattern starts with.  The places to come
back to see the part too. -/
def withPart (a : Attempt) (rest part : List Char) : Attempt :=
  let spread (r : Retry) : Retry :=
    { r with pattern := r.pattern.take (r.pattern.length - a.pattern.length) ++ part ++ rest }
  { a with pattern := part ++ rest, fresh := true, star := a.star.map spread
           levels := a.levels.map spread }

/-- One mark or character of the pattern against a name that starts with `d`. -/
def step (a : Attempt) (d : Char) (ds : List Char) : Step :=
  match a.pattern with
  | [] => .stuck []
  | '*' :: '*' :: ps =>
    match a.fresh, ps with
    | true, [] => .done (some true)
    | true, '/' :: ps => .goOn (a.pastLevels ps)
    | _, ps => .goOn (a.pastStar ps)
  | '*' :: ps => .goOn (a.pastStar ps)
  | '?' :: ps => if d == '/' then .stuck a.pattern else .goOn (a.past ps ds)
  | '[' :: ps =>
    let (negated, body) := classBody ps
    let (found, rest) := inClass d none body
    if body.isEmpty || body.head? == some ']' then .done none
    else if found == negated then
      if rest.isEmpty then .done none else .stuck rest
    else match afterBracket? rest with
      | none => .done none
      | some ps => .goOn (a.past ps ds)
  | '\\' :: [] => .done none
  | '\\' :: c :: ps =>
    if c == d then .goOn { a.past ps ds with fresh := c == '/', hidden := c == '\\' }
    else .stuck a.pattern
  | c :: ps =>
    if c == '\x7b' then
      match closing? 0 ps with
      | none => .done none
      | some (inner, rest) => .choose ((parts inner).map (a.withPart rest))
    else if c == d then .goOn { a.past ps ds with fresh := c == '/' }
    else .stuck (if a.hidden then '\\' :: a.pattern else a.pattern)

/-- The attempt in which the last `**/` takes one more element. -/
def nextLevel? (a : Attempt) : Option Attempt := do
  let r ← a.levels
  match r.name.dropWhile (· != '/') with
  | [] => none
  | _ :: name => some { pattern := r.pattern, name, levels := some ⟨r.pattern, name⟩ }

/-- The attempt in which the last `*`, or else the last `**/`, takes more. -/
def retry? (a : Attempt) : Option Attempt :=
  match a.star with
  | some ⟨pattern, c :: name⟩ =>
    if c == '/' then a.nextLevel?
    else some { a.past pattern name with star := some ⟨pattern, name⟩ }
  | _ => a.nextLevel?

end Attempt

/-! ## Answers -/

/-- The answer when a pattern and a name do not agree. -/
def refusal (strict : Bool) (rest : List Char) : Option Bool :=
  if strict && !isValid rest then none else some false

/-- A pattern stands for no characters at all.  The fuel is the length of the
pattern. -/
def standsForNothing (strict : Bool) : Nat → List Char → Option Bool
  | _, [] | _, ['*'] | _, ['*', '*'] | _, ['/', '*', '*'] => some true
  | _, ['*', '*', '/'] | _, ['/', '*', '*', '/'] => some true
  | fuel, c :: cs =>
    if c == '\x7b' then
      match closing? 0 cs, fuel with
      | none, _ => none
      | _, 0 => some false
      | some (inner, rest), fuel + 1 =>
        (parts inner).anyM fun part => standsForNothing strict fuel (part ++ rest)
    else refusal strict (c :: cs)

/-- The answer of an attempt. -/
def matchFrom (strict : Bool) : Nat → Attempt → Option Bool
  | 0, _ => some false
  | fuel + 1, a =>
    match a.name with
    | [] => standsForNothing strict a.pattern.length a.pattern
    | d :: ds =>
      match a.step d ds with
      | .goOn a => matchFrom strict fuel a
      | .choose as => as.anyM (matchFrom strict fuel)
      | .done answer => answer
      | .stuck rest =>
        match a.retry? with
        | some a => matchFrom strict fuel a
        | none => refusal strict rest

/-- The most steps of an attempt.  Between two braces each `**/` takes every element
once, and for each of them a `*` takes every character once. -/
def stepLimit (pattern name : List Char) : Nat :=
  let p := pattern.length + 2
  let n := name.length + 2
  p * (p * n * n * (p + n))

/-- A pattern stands for a name.  Nothing is said when the pattern cannot be read. -/
def matches? (strict : Bool) (pattern name : List Char) : Option Bool :=
  matchFrom strict (stepLimit pattern name) { pattern, name }

/-- A pattern accepts a path text.  A pattern that cannot be read accepts nothing. -/
def accepts (pattern path : String) : Bool :=
  matches? true pattern.toList path.toList == some true

end ResourceSafety.Glob
