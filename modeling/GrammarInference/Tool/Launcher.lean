import GrammarInference.Tool.Shell.Run

/-!
# Launching tools

The launcher that knows the tools of the library and no other programs. A tool takes a moment to
start, and runs into the time limit if it needs as long as that.

The main statements say that a program that is none of the tools is never run, and that no tool but
the shell changes files.
-/

namespace GrammarInference

namespace Tool

/-- A program that the launcher knows. -/
inductive Program
  /-- The shell, by the name it is called with. -/
  | shell (name : Text)
  /-- Another tool. -/
  | tool (t : Tool)

/-- The program that a name stands for, if there is one. -/
def Program.named? (program : Text) : Option Program :=
  let name := baseName program
  if Shell.Meaning.shellNames.contains name then some (.shell program)
  else (catalog.lookup name).map .tool

/-- The seconds that a tool takes to start. -/
def startSeconds : Float := 0.001

/-- A message of the operating system about a program. -/
def aboutProgram (program : Text) (number : Nat) (wording : String) : Text :=
  FileFault.systemMessage number wording.toList program

/-- Why a program that is no tool cannot be started. -/
def obstacle (w : Workspace) (program : Text) : Text :=
  let denied := aboutProgram program 13 "Permission denied"
  let missing := aboutProgram program 2 "No such file or directory"
  if (Text.cutAt '/' program).any fun c =>
      Workspace.longestComponent < Workspace.byteLength c then
    aboutProgram program 36 "File name too long"
  else if !program.contains '/' then
    if program ∈ [[], ['.'], ['.', '.']] then denied else missing
  else match w.locate program with
    | .ok p => if (w.holding? p).isSome then denied else missing
    | .error f => f.message program

/-- The number of bytes that an argument may not reach. -/
def longestArgument : Nat := 131072

/-- The number of bytes that all arguments may not reach, with what is added to each. -/
def longestArguments : Nat := 2080000

/-- Whether arguments are too long for a program, one character for each byte. -/
def areTooLong (args : List Text) : Bool :=
  args.any (fun a => longestArgument ≤ a.length)
    || longestArguments ≤ (args.map fun a => a.length + 9).foldl (· + ·) 0

/-- What becomes of a tool with its result, under a time limit. -/
def Result.ending (r : Result) (timeout : Option Float) : Ending :=
  if timeout.any (· ≤ r.seconds + startSeconds) then .timedOut
  else .exited r.status (toBytes r.output)

/-- Runs a program that the launcher knows. -/
def Program.run (p : Program) (around : Surroundings) (timeout : Option Float) :
    Result × Workspace :=
  match p with
  | .tool t => (t around, around.workspace)
  | .shell name => Shell.shell name ((timeout.map (· - startSeconds)).getD (1.0 / 0.0)) around

/-- Runs a program if the launcher knows it. -/
def launcher : Launcher Workspace := fun l w =>
  match Program.named? l.program with
  | some p =>
    let args := l.arguments.map spread
    if areTooLong args then
      (.notStarted (aboutProgram l.program 7 "Argument list too long"), w)
    else
      let (r, w) := p.run { arguments := args, input := ofBytes l.input, workspace := w } l.timeout
      (r.ending l.timeout, w)
  | none => (.notStarted (obstacle w l.program), w)

/-- A program that the launcher does not know is not started. -/
theorem launcher_of_unknown (w : Workspace) {l : Launch} (h : Program.named? l.program = none) :
    launcher l w = (.notStarted (obstacle w l.program), w) := by
  simp [launcher, h]

/-- A tool other than the shell leaves the files as they are. -/
theorem launcher_of_tool (w : Workspace) {l : Launch} {t : Tool}
    (h : Program.named? l.program = some (.tool t)) : (launcher l w).2 = w := by
  simp only [launcher, h]
  split <;> rfl

end Tool

end GrammarInference
