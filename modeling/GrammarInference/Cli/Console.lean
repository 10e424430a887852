import GrammarInference.Cli.Setting

/-!
# The console

What the commands of the program work with: the files, the place where notes go, and what has been
written to the two output streams so far. An action changes the console and may be interrupted, by
a complaint to the user or by a fault that the program is not prepared for. What was written before
stays written.

The main statements say where a note goes, and that a report is either a success, a failure with a
complaint as the end of its error stream, or a breakdown.
-/

namespace GrammarInference

namespace Cli

/-- What the commands work with. -/
structure Console where
  /-- The files. -/
  workspace : Workspace
  /-- How serious a note has to be to be shown. -/
  threshold : Level
  /-- The file that notes are written to; without one they go to the error stream. -/
  logFile : Option Place
  /-- The output stream so far. -/
  out : Text
  /-- The error stream so far. -/
  err : Text

/-- Work at the console. -/
abbrev Action (α : Type) := ExceptT Interruption (StateM Console) α

namespace Console

/-- A console at the beginning. Only warnings and worse are shown. -/
def start (w : Workspace) : Console := ⟨w, .warning, none, [], []⟩

/-- Shows those of several notes that are serious enough. -/
def addNotes (c : Console) (ns : List Note) : Console :=
  let shown := ns.filter (Note.passes c.threshold)
  match c.logFile with
  | none => { c with err := c.err ++ shown.flatMap Note.line }
  | some p =>
    let more := (shown.flatMap Note.fileLine).flatMap Encoding.utf8Char
    { c with workspace := c.workspace.append p more }

/-- Adds a line to the output stream. -/
def addLine (c : Console) (line : Text) : Console := { c with out := c.out ++ line ++ ['\n'] }

/-- Without a log file, the notes that pass the threshold are added to the error stream in their
order. -/
theorem err_addNotes {c : Console} (h : c.logFile = none) (ns : List Note) :
    (c.addNotes ns).err = c.err ++ (ns.filter (Note.passes c.threshold)).flatMap Note.line := by
  simp [addNotes, h]

/-- With a log file, notes leave the error stream as it is. -/
theorem err_addNotes_of_logFile {c : Console} {p : Place} (h : c.logFile = some p)
    (ns : List Note) : (c.addNotes ns).err = c.err := by
  simp [addNotes, h]

/-- Notes that are shown in two goes are shown in one. -/
theorem err_addNotes_append {c : Console} (ms ns : List Note) :
    (c.addNotes (ms ++ ns)).err = ((c.addNotes ms).addNotes ns).err := by
  cases h : c.logFile <;> simp [addNotes, h]

end Console

namespace Action

/-- Stops with an error message. -/
def refuse {α : Type} (message : Text) : Action α := throw (.error message)

/-- Goes on with a result, or stops. -/
def get {ε α : Type} (stop : ε → Interruption) (r : Except ε α) : Action α :=
  match r with
  | .ok a => pure a
  | .error e => throw (stop e)

/-- Shows notes. -/
def notes (ns : List Note) : Action Unit := modify fun c => c.addNotes ns

/-- Shows a note. -/
def note (n : Note) : Action Unit := notes [n]

/-- Goes on if the machine is up to a stage of the work. -/
def spend (s : Setting) (stage : Stage) : Action Unit :=
  match s.shortage? stage with
  | some f => throw (.breakdown (.exhausted f))
  | none => pure ()

/-- Writes a line to the output stream, if the stream takes it. -/
def print (s : Setting) (stop : StreamFault → Interruption) (line : Text) : Action Unit :=
  match s.streamFault? line with
  | some f => throw (stop f)
  | none => modify fun c => c.addLine line

/-- The files as they are now. -/
def workspace : Action Workspace := do return (← MonadState.get).workspace

/-- Goes on with other files. -/
def setWorkspace (w : Workspace) : Action Unit := modify fun c => { c with workspace := w }

/-- Opens a file to be written anew. What was in it is gone. -/
def openFile (stop : FileFault → Interruption) (path : Text) : Action Place := do
  let w ← workspace
  let p ← get stop (w.locateTarget path)
  setWorkspace (w.put p [])
  return p

/-- Fills a file that was opened. -/
def fillFile (stop : FileFault → Interruption) (p : Place) (content : Bytes) : Action Unit := do
  let w ← workspace
  match w.refusal? p .fill with
  | some r => throw (stop (.refused r))
  | none => setWorkspace (w.put p content)

end Action

/-- What a run of the program leaves. -/
structure Report where
  /-- The exit status, unless a fault ended the run that the program is not prepared for. -/
  status : Except Breakdown Nat
  /-- The output stream. -/
  out : Text
  /-- The error stream. -/
  err : Text
  /-- The files. -/
  workspace : Workspace

/-- Does some work and reports on it. A complaint makes the last line of the error stream, and the
status one. -/
def Action.report (a : Action Unit) (c : Console) : Report :=
  match a.run.run c with
  | (.ok (), c) => ⟨.ok 0, c.out, c.err, c.workspace⟩
  | (.error (.complaint line), c) => ⟨.ok 1, c.out, c.err ++ line ++ ['\n'], c.workspace⟩
  | (.error (.breakdown b), c) => ⟨.error b, c.out, c.err, c.workspace⟩

/-- A status is zero or one; with one, the error stream ends with a line. -/
theorem Action.status_report {a : Action Unit} {c : Console} {n : Nat}
    (h : (a.report c).status = .ok n) :
    n = 0 ∨ n = 1 ∧ ∃ before line, (a.report c).err = before ++ line ++ ['\n'] := by
  unfold report at h ⊢
  split at h <;> simp_all
  exact .inr ⟨_, _, rfl⟩

end Cli

end GrammarInference
