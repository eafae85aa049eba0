import ResourceSafety.Command.Run
import ResourceSafety.Discharge.Profile
import ResourceSafety.Logic.ClauseLearning

/-!
# The command line tool

The tool reads the files that its arguments name, runs the command on them,
prints what the command wrote and saves the file that it left behind.

An argument that is no readable file is a directory or a pattern.  Then the
names of the files in question are taken from standard input, one on each line.

A watch looks at the files again and again, and makes an edit of every file that
has changed.  It runs until it is stopped.

No external solver can be started from here.
-/

namespace ResourceSafety.Tool

/-- The text of a file, if it can be read. -/
def readText (path : String) : IO (Option String) := do
  match ← (IO.FS.readFile path).toBaseIO with
  | .ok text => return some text
  | .error _ => return none

/-- The lines of standard input. -/
partial def readLines (input : IO.FS.Stream) : IO (List String) := do
  let line ← input.getLine
  if line.isEmpty then return []
  return line.trimAscii.toString :: (← readLines input)

/-- The tree of the files with the given names.  A name without a readable file is
left out. -/
def readTree (names : List String) : IO FileTree :=
  names.foldlM (fun t name => do
    match ← readText name with
    | some text => return t.addFile (Path.ofString name).elements text
    | none => return t) {}

/-- The names of the files that an invocation is about. -/
def fileNames (i : Invocation) : IO (List String) := do
  let readable ← i.arguments.filterM fun a => return (← readText a).isSome
  let listed ← if readable.length = i.arguments.length then pure []
    else readLines (← IO.getStdin)
  return i.options.configPath :: i.arguments ++ listed.filter (!·.isEmpty)

/-- The tree with the directory that the ledger is saved to, which is taken to be
there. -/
def addSaveDirectory (i : Invocation) (t : FileTree) : FileTree :=
  t.addDirectory (Path.ofString i.options.save).elements.dropLast

/-- The edit that brings a file up to date, if it has changed. -/
def editOf? (t : FileTree) (name : String) : IO (Option Edit) := do
  match t.files.lookup (Path.ofString name).elements, ← readText name with
  | some old, some new => return if old == new then none else some (.write name new)
  | none, some new => return some (.write name new)
  | some _, none => return some (.remove name)
  | none, none => return none

/-- Looks at the files again and again. -/
partial def follow (s : Surroundings Backend) (i : Invocation) (c : Config) (names : List String)
    (w : Watch) : IO Unit := do
  IO.sleep (UInt32.ofNat (i.options.debounce.toNat / 1000000))
  let edits ← names.filterMapM (editOf? w.tree)
  let w := edits.foldl (Watch.edit s c (i.options.format == "json")) { w with output := "" }
  IO.print w.output
  (← IO.getStdout).flush
  follow s i c names w

/-- Writes the files that a command left behind. -/
def saveChanges (before after : FileTree) : IO Unit :=
  for (place, text) in after.files do
    if before.files.lookup place != some text then
      IO.FS.writeFile ("/".intercalate place) text

/-- Runs the tool. -/
def run (words : List String) : IO UInt32 := do
  let invocation := (Invocation.ofWords words).toOption.join
  let names ← match invocation with
    | some i => fileNames i
    | none => pure []
  let id ← IO.getRandomBytes 16
  let tree ← readTree names
  let tree := (invocation.map (addSaveDirectory · tree)).getD tree
  let s : Surroundings Backend :=
    { tree, run := runId id.toList
      opening := Backend.start Logic.clauseLearning .semantic fun _ => none }
  let r := s.runWords words
  IO.print r.output
  (← IO.getStdout).flush
  saveChanges s.tree r.tree
  match r.failure, invocation with
  | some e, _ =>
    IO.eprintln ("Error: " ++ e.message)
    return UInt32.ofNat r.exitCode
  | none, some i =>
    if i.command = .watch then
      match (s.setup i.options).bind (Surroundings.applyOptions i.options),
          Watch.start s.tree i.arguments with
      | .ok c, .ok w => follow s i c names w
      | _, _ => pure ()
    return 0
  | none, none => return 0

end ResourceSafety.Tool

/-- The command line tool. -/
def main (words : List String) : IO UInt32 := ResourceSafety.Tool.run words
