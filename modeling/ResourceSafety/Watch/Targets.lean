import ResourceSafety.FileTree
import ResourceSafety.Glob.Match

/-!
# What is watched

The arguments of a watch are files, directories and patterns.  Each names a
*root*, the file or directory that is watched, and together they decide which
changed paths are traces to be checked again.

* A file is watched for itself.
* A pattern is watched for what it accepts.
* A directory is watched for all YAML files inside it.
-/

namespace ResourceSafety

/-- What is watched. -/
structure WatchTargets where
  /-- The paths to watch, one for each argument. -/
  roots : List String := []
  /-- Files, as clean paths. -/
  files : List String := []
  /-- Patterns. -/
  patterns : List String := []
  /-- Directories, as clean paths. -/
  directories : List String := []
deriving Repr, DecidableEq

namespace WatchTargets

/-- The targets with one more argument.  `isDirectory` tells directories from
files. -/
def add (isDirectory : String → Bool) (w : WatchTargets) (argument : String) : WatchTargets :=
  if Glob.isPattern argument then
    { w with roots := w.roots ++ [String.ofList (Glob.splitBase argument.toList).1]
             patterns := w.patterns ++ [argument] }
  else
    let path := cleanPath argument
    let w := { w with roots := w.roots ++ [path] }
    if isDirectory path then { w with directories := w.directories ++ [path] }
    else { w with files := w.files ++ [path] }

/-- The targets that arguments name. -/
def ofArguments (isDirectory : String → Bool) (arguments : List String) : WatchTargets :=
  arguments.foldl (add isDirectory) {}

/-- The name of a YAML file. -/
def isYamlName (path : String) : Bool := extension path == ".yaml" || extension path == ".yml"

/-- A clean path lies inside a directory: the way from the directory to it does
not begin with two dots. -/
def inside (directory path : String) : Bool :=
  match (Path.ofString directory).relative? (Path.ofString path) with
  | some way => !way.render.startsWith ".."
  | none => false

/-- A changed path is a trace to be checked again. -/
def accepts (w : WatchTargets) (changed : String) : Bool :=
  let path := cleanPath changed
  w.files.contains path || w.patterns.any (Glob.accepts · path) ||
    (isYamlName path && w.directories.any (inside · path))

end WatchTargets

end ResourceSafety
