import RecordSearch.Command.Run

/-!
# Command line

Reads the files that the arguments name into a workspace, runs the command in it, prints its output and writes the
files that it made.  A file that cannot be read counts as absent.
-/

namespace RecordSearch

/-- What is printed on a request for help. -/
def usageText : String :=
  "usage: saje [-v] [--prefs FILE | --no-prefs] COMMAND\n\n" ++
  "commands:\n" ++
  "  inspect -i INPUT... [--json-pointer POINTER] [--modes LIST] [--json]\n" ++
  "  search -i INPUT... [-q FILE | -c CRITERIA] [--operator OPERATOR]\n" ++
  "         [--json-pointer POINTER] [--modes LIST] [--json]\n" ++
  "  help [COMMAND]\n"

/-- There is a folder at a path. -/
def isFolderAt (path : String) : IO Bool := do
  try
    (← IO.FS.realPath path).isDir
  catch _ =>
    return false

/-- The entry at a path, with folders down to a depth and without the texts of files. -/
def treeAt (path : String) : Nat → IO Entry
  | 0 => return .file ""
  | depth + 1 => do
      if ← isFolderAt path then
        let mut inner := []
        for entry in ← (← IO.FS.realPath path).readDir do
          inner := Entry.insert entry.fileName (← treeAt (path ++ "/" ++ entry.fileName) depth) inner
        return .folder inner
      else
        return .file ""

/-- The workspace with the folders and files that a pattern may describe. -/
def addTree (w : Workspace) (pattern : String) : IO Workspace := do
  let (fixed, varied) := (pathNames pattern).span fun name => !Glob.isPattern name
  let base := if fixed.isEmpty then "." else "/".intercalate fixed ++ "/"
  let depth := if varied.contains "**" then 64 else varied.length + 1
  if ← isFolderAt base then return w.put base (← treeAt base depth) else return w

/-- The workspace with the file or folder at a path, if it can be read. -/
def addFile (w : Workspace) (path : String) : IO Workspace := do
  try
    return w.put path (.file (← IO.FS.readFile path))
  catch _ =>
    if ← isFolderAt path then return w.put path (.folder []) else return w

/-- The paths that an input names in a workspace. -/
def inputPaths (w : Workspace) (input : String) : List String :=
  if Glob.isPattern input then (w.expand input).toOption.getD [] else [input]

/-- The paths of the preferences and of the query. -/
def Invocation.settingPaths (invocation : Invocation) : List String :=
  let query :=
    match invocation.action with
    | .search (.file path) _ => [path]
    | _ => []
  invocation.preferences.toList ++ query

/-- The workspace in which an invocation runs. -/
def workspaceFor (invocation : Invocation) : IO Workspace := do
  let here := ((← IO.currentDir).components).filter (· ≠ "")
  let inputs := invocation.input.inputs
  let w ← (inputs.filter Glob.isPattern).foldlM addTree (Workspace.empty here)
  (inputs.flatMap (inputPaths w) ++ invocation.settingPaths).foldlM addFile w

/-- Runs an invocation, and gives the exit code. -/
def perform (invocation : Invocation) : IO UInt32 := do
  let w ← workspaceFor invocation
  let stdout ← IO.getStdout
  let outcome := invocation.run w (← stdout.isTty)
  for (location, text) in outcome.created w do
    IO.FS.writeFile ("/" ++ "/".intercalate location) text
  for notice in outcome.session.notices do
    IO.eprintln notice.logText
  IO.eprint outcome.session.stderr
  IO.print outcome.session.stdout
  match outcome.failure with
  | none => return 0
  | some failure =>
      IO.eprintln ("error: " ++ failure.message)
      return 1

end RecordSearch

open RecordSearch in
/-- Runs the command line. -/
def main (arguments : List String) : IO UInt32 := do
  match Arguments.read arguments with
  | .ok invocation => perform invocation
  | .error .help =>
      IO.print usageText
      return 0
  | .error .version =>
      IO.println ("saje " ++ Version.engine.text)
      return 0
  | .error .wrong =>
      IO.eprint usageText
      return 2
