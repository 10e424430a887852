import GrammarInference.Cli.Commands
import GrammarInference.Command.Words

/-!
# Paths in a request

Which paths a request names. To carry it out, it has to be known what is at these paths and on the
way to them, and which files there are in the directory of the seeds; afterwards only the targets
may have changed.
-/

namespace GrammarInference

namespace Cli

/-- The paths to the directories on the way to a place, and to the place itself, the shortest one
first. -/
def leadingPaths (path : Text) : List Text :=
  (((List.range path.length).filter fun i => path[i]? = some '/').map path.take ++ [path]).filter
    (· ≠ [])

/-- The last of the leading paths is the whole path. -/
theorem getLast?_leadingPaths {path : Text} (h : path ≠ []) :
    (leadingPaths path).getLast? = some path := by
  simp [leadingPaths, h]

/-- The words of a command line; none if it cannot be cut. -/
def wordsOf (line : Text) : List Text :=
  match Words.split line with
  | .ok words => words
  | .error _ => []

/-- The directories whose files a task reads. -/
def Task.directories : Task → List Text
  | .learn r => [r.input]
  | .fuzz _ => []
  | .print _ => []

/-- The file that a task writes, if it writes one. -/
def Task.target? (s : Setting) : Task → Option Text
  | .learn r => some (r.target s)
  | .fuzz _ => none
  | .print _ => none

/-- The files that a task reads. A command may read those that its line names. -/
def Task.sources : Task → List Text
  | .learn r => wordsOf r.command
  | .fuzz r => r.input :: wordsOf r.command
  | .print path => [path]

/-- The directories whose files a request reads. -/
def Request.directories (r : Request) : List Text := (r.task.map Task.directories).getD []

/-- The files that a request may change. -/
def Request.targets (s : Setting) (r : Request) : List Text :=
  r.file.toList ++ (r.task.bind (Task.target? s)).toList

/-- The paths that matter to a request. -/
def Request.paths (s : Setting) (r : Request) : List Text :=
  let named := r.directories ++ r.targets s ++ (r.task.map Task.sources).getD []
  Text.distinct (named.flatMap leadingPaths)

end Cli

end GrammarInference
