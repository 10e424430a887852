import GrammarInference.Cli.Paths
import GrammarInference.Cli.Run
import GrammarInference.Tool.Launcher
import Std.Time.Format

/-!
# The program

Reads the arguments, looks at the files that the request names, carries the request out, and writes
what it has changed.
-/

namespace GrammarInference

namespace Cli

/-- The entries of a directory; nothing if the path names none. -/
def entriesAt? (path : Text) : IO (Option (List Text)) := do
  match ← ((← IO.currentDir) / String.ofList path).readDir.toBaseIO with
  | .ok entries => return some (entries.toList.map fun e => e.fileName.toList)
  | .error _ => return none

/-- A workspace with what is at a path. -/
def withEntry (w : Workspace) (path : Text) : IO Workspace := do
  if '\x00' ∈ path then return w
  if (← entriesAt? path).isSome then return w.makeDirectory path
  match ← (IO.FS.readBinFile (String.ofList path)).toBaseIO with
  | .ok content => return w.makeFile path content.toList
  | .error _ => return w

/-- The workspace that matters to a request. -/
def readWorkspace (s : Setting) (r : Request) : IO Workspace := do
  let mut w := Workspace.empty
  for path in r.paths s do
    w ← withEntry w path
  for directory in r.directories do
    let place := if directory = [] then ['.'] else directory
    for name in (← entriesAt? place).getD [] do
      w ← withEntry w (place ++ ['/'] ++ name)
  return w

/-- Writes the files that have changed. -/
def writeChanges (targets : List Text) (before after : Workspace) : IO Unit := do
  for path in targets do
    match before.read path, after.read path with
    | .ok old, .ok new =>
      if old ≠ new then IO.FS.writeBinFile (String.ofList path) ⟨new.toArray⟩
    | .error _, .ok new => IO.FS.writeBinFile (String.ofList path) ⟨new.toArray⟩
    | _, .error _ => pure ()

/-- The file for a grammar when none is named, after the time of day. -/
def timedOutput : IO Text := do
  return ((← Std.Time.PlainDateTime.now).format "uuuu-MM-dd_HH:mm" ++ ".gram").toList

/-- What the program counts with: as much memory as there is, and a thousand calls, or brackets,
within each other. -/
def usualMachine : Machine := ⟨fun _ => true, 1000, 1000⟩

/-- Carries out a request, and returns the exit status. -/
def carryOut (r : Request) : IO UInt32 := do
  let s := Setting.ample Tool.launcher usualMachine (← timedOutput)
  let w ← readWorkspace s r
  let report := r.run s w
  writeChanges (r.targets s) w report.workspace
  IO.print (String.ofList report.out)
  IO.eprint (String.ofList report.err)
  match report.status with
  | .ok status => return status.toUInt32
  | .error b =>
    IO.eprintln (String.ofList b.message)
    return 1

end Cli

end GrammarInference

/-- The program. -/
def main (args : List String) : IO UInt32 := do
  match GrammarInference.Cli.Request.read (args.map String.toList) with
  | .ok r => GrammarInference.Cli.carryOut r
  | .error .help =>
    IO.println (String.ofList GrammarInference.Cli.usage)
    return 0
  | .error .misuse =>
    IO.eprintln (String.ofList GrammarInference.Cli.usage)
    return 2
