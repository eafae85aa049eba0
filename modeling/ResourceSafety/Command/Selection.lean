import ResourceSafety.Glob.Search

/-!
# Selecting traces

The arguments of a command are files, directories and patterns.  A file selects
itself, a directory all YAML files below it, and a pattern the files it selects.
Each argument must select something.  The selected paths are clean, ordered, and
each is there once.
-/

namespace ResourceSafety

/-- Why arguments select nothing. -/
inductive SelectionError
  | badPattern
  | noMatch (pattern : String)
  | emptyDirectory (path : String)
  | missing (path : String) (cause : FileError)
deriving Repr, DecidableEq

/-- The wording of an error. -/
def SelectionError.message : SelectionError → String
  | badPattern => "glob error: syntax error in pattern"
  | noMatch pattern => "no traces match pattern: " ++ pattern
  | emptyDirectory path => "no traces in directory: " ++ path
  | missing path cause => "stat " ++ path ++ ": " ++ cause.message

namespace FileTree

/-- The pattern of the traces in a directory. -/
def tracePattern : String := "**/*.\x7byaml,yml\x7d"

/-- The files below a directory that a pattern finds, as paths.  There are none
below what is no directory. -/
def selectBelow (t : FileTree) (directory : String) (pattern : List Char) :
    Except SelectionError (List String) :=
  if !Glob.isValid pattern then .error .badPattern
  else match t.find directory with
    | .ok (place, .directory) =>
      match Glob.search t place pattern with
      | none => .error .badPattern
      | some found => .ok (found.map fun f => (Path.under directory f).render)
    | _ => .ok []

/-- The paths that a pattern selects.  A pattern without a last name selects what is
there at its path. -/
def selectPattern (t : FileTree) (pattern : String) : Except SelectionError (List String) :=
  let path := (cleanPath pattern).toList
  let (base, name) := Glob.splitBase path
  if name == [] || name == ['.'] || name == ['.', '.'] then
    let plain := String.ofList (Glob.unescape path)
    if !Glob.isValid path then .error .badPattern
    else .ok (if t.exists? plain then [plain] else [])
  else t.selectBelow (String.ofList base) name

/-- The paths that one argument selects. -/
def selectArgument (t : FileTree) (argument : String) : Except SelectionError (List String) := do
  if Glob.isPattern argument then
    let found ← t.selectPattern argument
    if found.isEmpty then throw (.noMatch argument) else return found
  else match t.find argument with
    | .error e => throw (.missing argument e)
    | .ok (_, .file _) => return [cleanPath argument]
    | .ok (_, .directory) =>
      let found ← t.selectBelow argument tracePattern.toList
      if found.isEmpty then throw (.emptyDirectory argument) else return found

/-- The paths that arguments select, ordered and each once. -/
def select (t : FileTree) (arguments : List String) : Except SelectionError (List String) := do
  let found ← arguments.mapM t.selectArgument
  return found.flatten.eraseDups.mergeSort fun a b => !(b < a)

end FileTree

end ResourceSafety
