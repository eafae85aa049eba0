import ResourceSafety.Path

/-!
# Trees of files

A tree holds the files and the directories below the working directory.  Every
directory above a file or a directory is in the tree too.

A path text is resolved element by element, as an operating system does it: each
element but the last must be a directory, and `..` climbs to the directory
above.  An element takes at most 255 bytes and a path at most 4095, and no path
holds a zero byte.

Of the places outside the working directory three are known: the root, `/dev`
and the empty file `/dev/null`, which forgets what is written to it.  To climb
out of the working directory is to reach the root.
-/

namespace ResourceSafety

/-- Why a path cannot be used. -/
inductive FileError
  /-- There is nothing at the path. -/
  | notFound
  /-- A part of the path is a file. -/
  | notDirectory
  /-- The path is a directory. -/
  | isDirectory
  /-- The path or one of its elements is too long. -/
  | nameTooLong
  /-- The path holds a zero byte. -/
  | zeroByte
deriving Repr, DecidableEq

/-- The wording of an error. -/
def FileError.message : FileError → String
  | notFound => "no such file or directory"
  | notDirectory => "not a directory"
  | isDirectory => "is a directory"
  | nameTooLong => "file name too long"
  | zeroByte => "invalid argument"

/-- What can be at a path. -/
inductive FileNode
  | directory
  | file (text : String)
deriving Repr, DecidableEq

/-- Where a path leads. -/
inductive Place
  /-- Below the working directory, by the elements from there. -/
  | inside (elements : List String)
  /-- Outside the working directory, by the elements from the root. -/
  | outside (elements : List String)
deriving Repr, DecidableEq

namespace Place

/-- The place of a name in a directory. -/
def child (name : String) : Place → Place
  | inside es => inside (es ++ [name])
  | outside es => outside (es ++ [name])

/-- The directory above.  The root is above itself. -/
def parent : Place → Place
  | inside [] => outside []
  | inside es => inside es.dropLast
  | outside es => outside es.dropLast

end Place

/-- The files and directories below the working directory, by their elements. -/
structure FileTree where
  /-- The directories, without the working directory itself. -/
  directories : List (List String) := []
  /-- The files with their texts. -/
  files : List (List String × String) := []
deriving Repr, DecidableEq

namespace FileTree

/-- What is at a place. -/
def node? (t : FileTree) : Place → Option FileNode
  | .inside [] => some .directory
  | .inside place =>
    if t.directories.contains place then some .directory
    else (t.files.lookup place).map .file
  | .outside [] | .outside ["dev"] => some .directory
  | .outside ["dev", "null"] => some (.file "")
  | .outside _ => none

/-- The places above a place, outermost first, without the working directory. -/
def above (place : List String) : List (List String) :=
  (List.range place.length).tail.map (place.take ·)

/-- The tree with a directory and those above it. -/
def addDirectory (t : FileTree) (place : List String) : FileTree :=
  { t with directories := t.directories ++ (above place ++ [place]).filter fun p =>
      !p.isEmpty && !t.directories.contains p }

/-- The tree without the file at a place. -/
def remove (t : FileTree) (place : List String) : FileTree :=
  { t with files := t.files.filter (·.1 != place) }

/-- The tree with a file and the directories above it.  An older file at its place
is replaced. -/
def addFile (t : FileTree) (place : List String) (text : String) : FileTree :=
  let t := (above place).foldl addDirectory t
  { t.remove place with files := (t.remove place).files ++ [(place, text)] }

/-! ## Resolving paths -/

/-- The most bytes of an element. -/
def elementLimit : Nat := 255

/-- The most bytes of a path. -/
def pathLimit : Nat := 4095

/-- The place that the elements of a path lead to from a place. -/
def walk (t : FileTree) (place : Place) : (elements : List String) → Except FileError Place
  | [] => .ok place
  | e :: es =>
    match t.node? place with
    | some .directory =>
      if e == "" || e == "." then walk t place es
      else if e == ".." then walk t place.parent es
      else if elementLimit < e.utf8ByteSize then .error .nameTooLong
      else walk t (place.child e) es
    | some (.file _) => .error .notDirectory
    | none => .error .notFound

/-- What a path text leads to, and its place. -/
def find (t : FileTree) (path : String) : Except FileError (Place × FileNode) := do
  if path.toList.contains '\x00' then throw .zeroByte
  if path == "" then throw .notFound
  if pathLimit < path.utf8ByteSize then throw .nameTooLong
  let start := if path.startsWith "/" then Place.outside [] else Place.inside []
  let place ← t.walk start ((Path.split path.toList).map String.ofList)
  match t.node? place with
  | some n => return (place, n)
  | none => throw .notFound

/-- There is something at a path. -/
def exists? (t : FileTree) (path : String) : Bool := (t.find path).toOption.isSome

/-- There is a directory at a path. -/
def isDirectory (t : FileTree) (path : String) : Bool :=
  match t.find path with
  | .ok (_, .directory) => true
  | _ => false

/-- Why a file could not be read. -/
inductive ReadError
  /-- The path leads to no file. -/
  | opening (path : String) (cause : FileError)
  /-- The path leads to a directory. -/
  | reading (path : String) (cause : FileError)
deriving Repr, DecidableEq

/-- The wording of an error. -/
def ReadError.message : ReadError → String
  | opening path cause => "open " ++ path ++ ": " ++ cause.message
  | reading path cause => "read " ++ path ++ ": " ++ cause.message

/-- The text of the file at a path. -/
def read (t : FileTree) (path : String) : Except ReadError String :=
  match t.find path with
  | .error e => .error (.opening path e)
  | .ok (_, .directory) => .error (.reading path .isDirectory)
  | .ok (_, .file text) => .ok text

/-- The tree with a text put at a place. -/
def put (t : FileTree) (text : String) : Place → FileTree
  | .inside place => t.addFile place text
  | .outside _ => t

/-- The tree with a text written to a path.  The directory of the file must be
there. -/
def write (t : FileTree) (path text : String) : Except ReadError FileTree :=
  match t.find path with
  | .ok (_, .directory) => .error (.opening path .isDirectory)
  | .ok (place, .file _) => .ok (t.put text place)
  | .error .notFound =>
    let parent := String.ofList (path.toList.reverse.dropWhile (· != '/')).reverse
    match t.find (if parent == "" then "." else parent) with
    | .ok (place, .directory) =>
      if path == "" then .error (.opening path .notFound)
      else if path.endsWith "/" then .error (.opening path .isDirectory)
      else .ok (t.put text (place.child (baseName path)))
    | .ok (_, .file _) => .error (.opening path .notDirectory)
    | .error e => .error (.opening path e)
  | .error e => .error (.opening path e)

/-! ## Directories -/

/-- The elements of `inner` below `outer`, at least one. -/
def below? (outer inner : List String) : Option (List String) :=
  if outer.isPrefixOf inner && inner != outer then some (inner.drop outer.length) else none

/-- The files below a place, by their elements from there. -/
def filesBelow (t : FileTree) : Place → List (List String)
  | .inside place => t.files.filterMap fun (f, _) => below? place f
  | .outside _ => []

/-- The directories below a place, by their elements from there. -/
def directoriesBelow (t : FileTree) : Place → List (List String)
  | .inside place => t.directories.filterMap (below? place)
  | .outside _ => []

end FileTree

end ResourceSafety
