import ResourceSafety.FileTree
import ResourceSafety.Glob.Match

/-!
# Patterns on trees

A search goes through the files below a directory.  It works from the back: the
last element of the pattern is held against the names in each of the directories
that the rest of the pattern finds.  The last element finds files, all others
find directories.

A brace is spread out first, from the last to the first, even where it spans
several elements.  The pattern before it finds directories, and each part is
then a pattern of its own in each of them.  In it the names of the directories
are read as patterns again.  An empty last part is left out.

There are two ways to search.  A pattern with `**` before its end is *walked*:
each part of a brace is searched for alone, and `**` finds a directory and all
below it.  In any other pattern what the earlier parts of a brace have found
counts as a directory for the later ones, and `**` finds only files.
-/

namespace ResourceSafety.Glob

/-- What a name in a directory belongs to. -/
inductive Kind
  | file
  | directory
deriving Repr, DecidableEq

/-- A search below a directory. -/
structure Search where
  /-- The files. -/
  tree : FileTree
  /-- Where the search starts. -/
  base : Place
  /-- The pattern is walked. -/
  walking : Bool
deriving Repr, DecidableEq

namespace Search

/-- The place that a path below the start leads to.  Its elements must be plain
names. -/
def place? (s : Search) (path : List Char) : Option Place :=
  if path == ['.'] then some s.base
  else
    let names := (Path.split path).map String.ofList
    if names.any fun n => n == "" || n == "." || n == ".." then none
    else some (names.foldl (fun p n => p.child n) s.base)

/-- What is at a path below the start. -/
def node? (s : Search) (path : List Char) : Option FileNode :=
  (s.place? path).bind s.tree.node?

/-- The files below a directory, by their elements from there. -/
def files (s : Search) (directory : List Char) : List (List String) :=
  ((s.place? directory).map s.tree.filesBelow).getD []

/-- The directories below a directory, by their elements from there. -/
def directories (s : Search) (directory : List Char) : List (List String) :=
  ((s.place? directory).map s.tree.directoriesBelow).getD []

/-- The names in a directory, with the kind of each. -/
def entries (s : Search) (directory : List Char) : List (String × Kind) :=
  let named (kind : Kind) : List String → Option (String × Kind)
    | [name] => some (name, kind)
    | _ => none
  (s.files directory).filterMap (named .file) ++
    (s.directories directory).filterMap (named .directory)

/-- The path of something below a directory. -/
def join (directory : List Char) (elements : List String) : List Char :=
  let path := ("/".intercalate elements).toList
  if directory == ['.'] then path else directory ++ '/' :: path

/-- What an element of a pattern finds in a directory: files when it is the last
one, and directories when not.  Nothing is said when the element cannot be read. -/
def inDirectory (s : Search) (directory pattern : List Char) (last : Bool) :
    Option (List (List Char)) :=
  if pattern.isEmpty then
    some (if !last && s.node? directory == some .directory then [directory] else [])
  else if pattern == ['*', '*'] then
    if last then some ((s.files directory).map (join directory))
    else if s.walking && s.node? directory == some .directory then
      some (directory :: (s.directories directory).map (join directory))
    else some []
  else
    (s.entries directory).foldrM (fun (name, kind) found => do
      let yes ← matches? false pattern name.toList
      return if yes && kind == wanted then join directory [name] :: found else found) []
where
  /-- The kind of what the element finds. -/
  wanted : Kind := if last then .file else .directory

/-- A character that ends what stands before the last element or brace. -/
def isBound (c : Char) : Bool := c == '/' || c == '\x7d'

/-- The pattern with a part in place of a brace, below a directory. -/
def below (directory start part rest : List Char) : List Char :=
  if directory.isEmpty || directory == ['.'] then start ++ part ++ rest
  else directory ++ '/' :: start ++ part ++ rest

/-- What a pattern finds besides what was found before.  Nothing is said when it
cannot be read. -/
def find (s : Search) : (fuel : Nat) → (pattern : List Char) → (found : List (List Char)) →
    (last : Bool) → Option (List (List Char))
  | 0, _, found, _ => some found
  | fuel + 1, pattern, found, last =>
    let given := if s.walking then [] else found
    /- The element `rest` in the directories that `front` finds. -/
    let within (start : Nat) (front rest : List Char) : Option (List (List Char)) := do
      let directories ← if front.length ≤ start then some [front] else find s fuel front given false
      let new ← directories.mapM fun d => s.inDirectory d rest last
      return found ++ new.flatten
    match firstMark? pattern with
    | none =>
      let path := unescape pattern
      let named := if 1 < path.length && path.getLast? == some '/' then path.dropLast else path
      match s.node? named with
      | none => some found
      | some node => some (if last && node == .directory then found else found ++ [path])
    | some start =>
      match splitLast? isBound pattern with
      | none => return found ++ (← s.inDirectory ['.'] pattern last)
      | some (front, '/', rest) => within start front rest
      | some (inner, _, rest) =>
        match opening? inner with
        | some (front, inner) => do
          let (directories, start) ← match splitLast? isBound front with
            | some (front, '/', start) => (find s fuel front given false).map (·, start)
            | _ => some ([[]], front)
          let patterns := directories.flatMap fun d =>
            (dropEmptyLast (parts inner)).map fun part => below d start part rest
          patterns.foldlM (fun found p => (find s fuel p found last).map (·.eraseDups)) found
        | none =>
          match splitLast? (· == '/') inner with
          | some (front, _, name) => within start front (name ++ '\x7d' :: rest)
          | none => return found ++ (← s.inDirectory ['.'] pattern last)

end Search

/-- The most nested searches for a pattern.  Each has a shorter pattern, or a name of
a directory in place of a part of it. -/
def searchLimit (t : FileTree) (pattern : List Char) : Nat :=
  let names := t.directories.foldl (fun n d => n + ("/".intercalate d).length + 1) 1
  (pattern.length + 1) * (names + pattern.length + 1)

/-- The files below a place that a pattern finds, as paths from there.  Nothing is
said when the pattern cannot be read. -/
def search (t : FileTree) (base : Place) (pattern : List Char) : Option (List String) :=
  if !isValid pattern then none
  else
    let s : Search := ⟨t, base, hasInnerLevels pattern⟩
    (s.find (searchLimit t pattern) pattern [] true).map (·.map String.ofList)

end ResourceSafety.Glob
