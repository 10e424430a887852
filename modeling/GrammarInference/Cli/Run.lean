import GrammarInference.Cli.Commands

/-!
# Running the program

A request is carried out in a workspace. Without a command the usage is printed. Otherwise the log
is set up before the command is carried out.

The main statement says that the exit status is zero or one.
-/

namespace GrammarInference

namespace Cli

/-- How the program is used. -/
def usage : Text :=
  ("usage: grammarfuzz [-h] [--log LEVEL] [-f FILE] COMMAND ...\n"
    ++ "\n"
    ++ "Learn input grammars from examples and fuzz with them.\n"
    ++ "\n"
    ++ "  -h, --help         show this help\n"
    ++ "  --log LEVEL        log level (DEBUG, INFO, WARNING, ERROR)\n"
    ++ "  -f, --file FILE    write log output to this file\n"
    ++ "\n"
    ++ "learn ORACLE         learn a grammar from seed inputs\n"
    ++ "  -o, --output FILE  the file for the grammar\n"
    ++ "  -i, --input DIR    the directory of the seeds (default: inputs)\n"
    ++ "  -l, --length SPEC  allowed lengths of inputs, N or A-B\n"
    ++ "  -a, --alphabet NAME  input alphabet, ASCII or BYTE (default: ASCII)\n"
    ++ "  --timeout SECONDS  time limit of a query (default: 10)\n"
    ++ "  --max-queries N    query budget (default: unlimited)\n"
    ++ "  --workers N        concurrent queries (default: 1)\n"
    ++ "\n"
    ++ "fuzz ORACLE          put samples of a grammar to a program\n"
    ++ "  -i, --input FILE   the file of the grammar\n"
    ++ "  -c, --count N      number of samples (default: 15)\n"
    ++ "  -l, --length SPEC  allowed lengths of samples; a range also cuts them\n"
    ++ "  -s, --seed N       random seed (default: 0)\n"
    ++ "  -m, --mutations N  mutations of each sample (default: 40)\n"
    ++ "  -d, --distribution WEIGHTS  weights of repetition counts\n"
    ++ "  -r, --recursion P  chance of a recursive branch (default: 0.2)\n"
    ++ "  --timeout SECONDS  time limit of a query (default: 10)\n"
    ++ "\n"
    ++ "print FILE           print the grammar in a file\n"
    ++ "\n"
    ++ "ORACLE is a command. A pair of braces in it is replaced by the input; without one\n"
    ++ "the input is written to its standard input.").toList

/-- Sets the threshold for notes. -/
def setThreshold (name : Text) : Action Unit :=
  match Level.ofName? name with
  | some l => modify fun c => { c with threshold := l }
  | none => .refuse (Level.unknownMessage name)

/-- Sends notes to a file from now on. The file is made if it is not there. -/
def setLogFile (path : Text) : Action Unit := do
  let w ← .workspace
  let p ← .get (fun f => .breakdown (.file path f)) (w.settleTarget path)
  modify fun c => { c with workspace := w.append p [], logFile := some p }

/-- Sets up the log. An empty file name is no file name. -/
def setLog (r : Request) : Action Unit := do
  setThreshold r.log
  match r.file with
  | none => pure ()
  | some [] => pure ()
  | some path => setLogFile path

/-- Carries out a task. -/
def Task.perform (s : Setting) : Task → Action Unit
  | .learn r => r.perform s
  | .fuzz r => r.perform s
  | .print path => printFile s path

/-- Carries out a request in a workspace. -/
def Request.run (s : Setting) (w : Workspace) (r : Request) : Report :=
  match r.task with
  | none => ⟨.ok 1, usage ++ ['\n'], [], w⟩
  | some task => Action.report (do setLog r; task.perform s) (Console.start w)

/-- The exit status is zero or one. -/
theorem Request.status_run {s : Setting} {w : Workspace} {r : Request} {n : Nat}
    (h : (r.run s w).status = .ok n) : n = 0 ∨ n = 1 := by
  unfold run at h
  split at h
  · simp_all
  · rcases Action.status_report h with h | ⟨h, _⟩ <;> simp [h]

end Cli

end GrammarInference
