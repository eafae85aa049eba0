/-!
# Path patterns

A pattern is a text in which some characters are *marks*.

* `*` stands for any characters but a slash, and `?` for one of them.
* `[a-z]` stands for one character of a class, `[!a-z]` for one outside it.
* `**/` at the start of an element stands for any number of whole elements, and
  `**` as the last element for everything.
* In `{a,b}` the parts stand for each other.
* A backslash takes the next character as it is.

This module takes patterns apart and says which of them can be read.  Braces are
looked at from both ends.  From the front a backslash hides the character after
it.  From the back a character is hidden when the one before it is a backslash,
even if that backslash is hidden itself.
-/

namespace ResourceSafety.Glob

/-- A character that starts a mark. -/
def isMark (c : Char) : Bool := c == '*' || c == '?' || c == '[' || c == '\x7b'

/-- A text that is a pattern. -/
def isPattern (s : String) : Bool := s.toList.any isMark

/-- The number of characters before the first mark that no backslash hides. -/
def firstMark? : List Char → Option Nat
  | [] => none
  | '\\' :: _ :: cs => (firstMark? cs).map (· + 2)
  | c :: cs => if isMark c then some 0 else (firstMark? cs).map (· + 1)

/-- The text without the backslashes that hide a mark or a closing bracket. -/
def unescape : List Char → List Char
  | '\\' :: c :: cs =>
    if isMark c || c == ']' || c == '\x7d' then c :: unescape cs
    else '\\' :: unescape (c :: cs)
  | c :: cs => c :: unescape cs
  | [] => []
termination_by cs => cs.length

/-! ## Braces from the front -/

/-- What stands before the closing of a brace and what follows it.  `depth` is the
number of inner braces that are open. -/
def closing? (depth : Nat) : List Char → Option (List Char × List Char)
  | [] => none
  | '\\' :: c :: cs => (closing? depth cs).map fun (inner, rest) => ('\\' :: c :: inner, rest)
  | c :: cs =>
    if c == '\x7d' then
      match depth with
      | 0 => some ([], cs)
      | d + 1 => (closing? d cs).map fun (inner, rest) => (c :: inner, rest)
    else
      (closing? (if c == '\x7b' then depth + 1 else depth) cs).map fun (inner, rest) =>
        (c :: inner, rest)

/-- The parts of what stands in a brace, divided by the commas that are in no
inner brace.  The depth falls below zero when more is closed than was opened. -/
def partsFrom (depth : Int) : List Char → List (List Char)
  | [] => [[]]
  | '\\' :: c :: cs => put ['\\', c] (partsFrom depth cs)
  | c :: cs =>
    if c == '\x7b' then put [c] (partsFrom (depth + 1) cs)
    else if c == '\x7d' then put [c] (partsFrom (depth - 1) cs)
    else if c == ',' && depth == 0 then [] :: partsFrom 0 cs
    else put [c] (partsFrom depth cs)
where
  /-- Characters in front of the first part. -/
  put (cs : List Char) : List (List Char) → List (List Char)
    | p :: ps => (cs ++ p) :: ps
    | [] => [cs]

/-- The parts of what stands in a brace. -/
def parts (inner : List Char) : List (List Char) := partsFrom 0 inner

/-- The parts without an empty last one. -/
def dropEmptyLast (ps : List (List Char)) : List (List Char) :=
  if ps.getLast? == some [] then ps.dropLast else ps

/-! ## Classes and validity -/

/-- What follows the first closing bracket that no backslash hides. -/
def afterBracket? : List Char → Option (List Char)
  | [] => none
  | '\\' :: _ :: cs => afterBracket? cs
  | c :: cs => if c == ']' then some cs else afterBracket? cs

/-- Whether a class is negated, and what follows its opening bracket and the mark of
negation. -/
def classBody : List Char → Bool × List Char
  | c :: cs => if c == '!' || c == '^' then (true, cs) else (false, c :: cs)
  | [] => (false, [])

/-- What follows a class, given what follows its opening bracket.  A class may not
be empty. -/
def afterClass? (cs : List Char) : Option (List Char) :=
  if (classBody cs).2.head? == some ']' then none else afterBracket? (classBody cs).2

theorem classBody_length (cs : List Char) : (classBody cs).2.length ≤ cs.length := by
  fun_cases classBody cs <;> simp

theorem afterBracket?_length {cs rest : List Char} (h : afterBracket? cs = some rest) :
    rest.length < cs.length := by
  fun_induction afterBracket? cs with
  | case1 => simp at h
  | case2 c cs ih => have := ih h; simp only [List.length_cons]; omega
  | case3 c cs _ _ => simp only [Option.some.injEq] at h; subst h; simp
  | case4 c cs _ _ ih => have := ih h; simp only [List.length_cons]; omega

theorem afterClass?_length {cs rest : List Char} (h : afterClass? cs = some rest) :
    rest.length < cs.length := by
  unfold afterClass? at h
  split at h
  · simp at h
  · exact Nat.lt_of_lt_of_le (afterBracket?_length h) (classBody_length cs)

/-- The pattern can be read: classes and braces are closed, and no backslash ends
it.  `depth` is the number of braces that are open. -/
def isValidFrom (depth : Nat) : List Char → Bool
  | [] => depth == 0
  | '\\' :: cs =>
    match cs with
    | [] => false
    | _ :: cs => isValidFrom depth cs
  | c :: cs =>
    if c == '[' then
      match _h : afterClass? cs with
      | none => false
      | some rest => isValidFrom depth rest
    else if c == '\x7b' then isValidFrom (depth + 1) cs
    else if c == '\x7d' then 0 < depth && isValidFrom (depth - 1) cs
    else isValidFrom depth cs
termination_by cs => cs.length
decreasing_by
  · exact Nat.lt_succ_of_lt (Nat.lt_succ_self _)
  · exact Nat.lt_succ_of_lt (afterClass?_length ‹_›)
  all_goals exact Nat.lt_succ_self _

/-- The pattern can be read. -/
def isValid (cs : List Char) : Bool := isValidFrom 0 cs

/-! ## Splitting a pattern -/

/-- The number of characters before the last slash that stands before the first
mark. -/
def baseLength? : List Char → Option Nat
  | [] => none
  | '\\' :: _ :: cs => (baseLength? cs).map (· + 2)
  | c :: cs =>
    if isMark c then none
    else match baseLength? cs with
      | some n => some (n + 1)
      | none => if c == '/' then some 0 else none

/-- The directory that a pattern starts from, and the pattern below it. -/
def splitBase (cs : List Char) : List Char × List Char :=
  match baseLength? cs with
  | none => (['.'], cs)
  | some 0 => (['/'], cs.drop 1)
  | some n => (unescape (cs.take n), cs.drop (n + 1))

/-- The last character of a kind that has no backslash before it: what stands
before it, the character, and what follows it. -/
def splitLast? (kind : Char → Bool) (cs : List Char) : Option (List Char × Char × List Char) :=
  go cs.reverse []
where
  /-- Looks through the characters from the back. -/
  go : List Char → List Char → Option (List Char × Char × List Char)
    | [], _ => none
    | c :: before, after =>
      if kind c && before.head? != some '\\' then some (before.reverse, c, after)
      else go before (c :: after)

/-- What stands before the opening of a brace and what stands in it, given all
that stands before its closing. -/
def opening? (cs : List Char) : Option (List Char × List Char) := go 0 cs.reverse []
where
  /-- Looks through the characters from the back, with the number of inner braces
  that are open. -/
  go (depth : Nat) : List Char → List Char → Option (List Char × List Char)
    | [], _ => none
    | c :: before, inner =>
      if before.head? == some '\\' then go depth before (c :: inner)
      else if c == '\x7d' then go (depth + 1) before (c :: inner)
      else if c == '\x7b' then
        match depth with
        | 0 => some (before.reverse, inner)
        | d + 1 => go d before (c :: inner)
      else go depth before (c :: inner)

/-- Two stars that are followed by at least two bytes. -/
def hasInnerLevels : List Char → Bool
  | [] => false
  | '\\' :: _ :: cs => hasInnerLevels cs
  | '*' :: '*' :: cs => 1 < (String.ofList cs).utf8ByteSize || hasInnerLevels ('*' :: cs)
  | _ :: cs => hasInnerLevels cs
termination_by cs => cs.length

end ResourceSafety.Glob
