/-!
# Slash paths

A path is a text of *elements* divided by slashes.  Reading it drops empty
elements and `.`, and lets `..` cancel the element before it.  What is left is
the clean form:

* a rooted path has no `..`, for nothing lies above the root;
* in any other path every `..` comes first;
* the path of no elements is written `/` when it is rooted and `.` when not.

`Path.ofString` reads, `Path.render` writes, and `clean` does one after the
other.  `relative?` walks from one clean path to another: it drops the elements
the two share and climbs out of what is left of the first.
-/

namespace ResourceSafety

/-- A clean path. -/
structure Path where
  /-- The path starts at the root. -/
  rooted : Bool
  /-- The elements, outermost first. -/
  elements : List String
deriving Repr, DecidableEq

namespace Path

/-- The texts between the slashes of a list of characters. -/
def split : List Char → List (List Char)
  | [] => [[]]
  | c :: cs =>
    if c == '/' then [] :: split cs
    else match split cs with
      | [] => [[c]]
      | e :: es => (c :: e) :: es

/-- One more element after those read so far.  The list `seen` holds the
elements in reverse. -/
def step (rooted : Bool) (seen : List String) (e : String) : List String :=
  if e == "" || e == "." then seen
  else if e == ".." then
    match seen with
    | [] => if rooted then [] else [".."]
    | last :: rest => if last == ".." then ".." :: seen else rest
  else e :: seen

/-- The clean path of a text. -/
def ofString (s : String) : Path :=
  let rooted := s.toList.head? == some '/'
  ⟨rooted, (((split s.toList).map String.ofList).foldl (step rooted) []).reverse⟩

/-- The text of a path. -/
def render (p : Path) : String :=
  let body := "/".intercalate p.elements
  if p.rooted then "/" ++ body else if p.elements.isEmpty then "." else body

/-- The elements of `target` seen from `start`, or nothing when that would need
the name of a directory above `start`. -/
def relativeElements? : (start target : List String) → Option (List String)
  | [], target => some target
  | b :: bs, t :: ts =>
    if b == t then relativeElements? bs ts
    else if b == ".." then none
    else some ((b :: bs).map (fun _ => "..") ++ t :: ts)
  | b :: bs, [] => if b == ".." then none else some ((b :: bs).map fun _ => "..")

/-- The path from `start` to `target`. -/
def relative? (start target : Path) : Option Path :=
  if start.rooted == target.rooted then
    (relativeElements? start.elements target.elements).map (⟨false, ·⟩)
  else none

/-- The path of `inner` under `outer`. -/
def under (outer inner : String) : Path :=
  if outer == "" then ofString inner
  else if inner == "" then ofString outer
  else ofString (outer ++ "/" ++ inner)

end Path

/-- The clean form of a path text. -/
def cleanPath (s : String) : String := (Path.ofString s).render

/-- The last element of a path text.  Slashes at the end do not count, the empty
text is `.`, and a text of slashes alone is `/`. -/
def baseName (s : String) : String :=
  if s == "" then "."
  else
    let back := s.toList.reverse.dropWhile (· == '/')
    if back.isEmpty then "/" else String.ofList (back.takeWhile (· != '/')).reverse

/-- The part of the last element from its last dot on, dot included. -/
def extension (s : String) : String :=
  let back := s.toList.reverse.takeWhile (· != '/')
  if back.contains '.' then
    String.ofList ('.' :: (back.takeWhile (· != '.')).reverse)
  else ""

/-- The clean path of everything before the last slash. -/
def directoryOf (s : String) : String :=
  cleanPath (String.ofList (s.toList.reverse.dropWhile (· != '/')).reverse)

end ResourceSafety
