import GrammarInference.Tool.Cat
import GrammarInference.Tool.Condition
import GrammarInference.Tool.Echo
import GrammarInference.Tool.Grep
import GrammarInference.Tool.Sleep

/-!
# The tools by name

The tools that need no shell, and the names they are called by. A program is looked for among the
tools if it is named without a slash, or by the path of a directory for programs.
-/

namespace GrammarInference

namespace Tool

/-- The tools that need no shell. -/
def catalog : List (Text × Tool) :=
  [("true".toList, fun _ => .quiet 0), ("false".toList, fun _ => .quiet 1),
    ("test".toList, test), ("[".toList, bracket), ("grep".toList, grep), ("cat".toList, cat),
    ("echo".toList, echo), ("sleep".toList, sleep)]

/-- The directories for programs. -/
def programDirectories : List Text := ["/bin/".toList, "/usr/bin/".toList]

/-- The name of a program that is named by its path in a directory for programs. -/
def baseName (program : Text) : Text :=
  match programDirectories.find? fun d => d.isPrefixOf program with
  | some d => program.drop d.length
  | none => program

end Tool

end GrammarInference
