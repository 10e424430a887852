import GrammarInference.Command.Encoding
import GrammarInference.Text.Quoted

/-!
# Starting programs

A program is started with its arguments, the bytes it reads and a time limit. What then happens is
up to a launcher: the program exits with a status, it does not finish in time, or it cannot be
started. A launcher is a function of the program and of the world around it, which the program may
change.
-/

namespace GrammarInference

/-- A program with its arguments and all that it can read. -/
structure Launch where
  /-- The program. -/
  program : Text
  /-- Its arguments. -/
  arguments : List Text
  /-- The bytes on its standard input. -/
  input : Bytes
  /-- The time limit in seconds, if there is one. -/
  timeout : Option Float

/-- What becomes of a program that is to be started. -/
inductive Ending
  /-- It exits. The status is negative if a signal ended it. -/
  | exited (status : Int) (output : Bytes)
  /-- It does not finish within the time limit. -/
  | timedOut
  /-- It cannot be started. -/
  | notStarted (reason : Text)
  deriving Repr, DecidableEq

/-- A way of running programs in a world `σ`. -/
abbrev Launcher (σ : Type) := Launch → σ → Ending × σ

namespace Launch

/-- The longest time limit in seconds that can be waited for: the greatest number of milliseconds
in 32 bits. -/
def longestTimeout : Float := 2147483.647

/-- Whether a time limit is not a number. -/
def hasUnclearTimeout (l : Launch) : Bool := l.timeout.any Float.isNaN

/-- Whether a time limit is too long to wait for. -/
def hasTooLongTimeout (l : Launch) : Bool := l.timeout.any (longestTimeout < ·)

end Launch

end GrammarInference
