import GrammarInference.Cli.Interruption
import GrammarInference.Command.Launch

/-!
# The surroundings of a command

What commands need to know of their surroundings: how programs are started, what the machine that
they run on can do, and which lines the output stream takes.

The machine may lack something for any part of the work. For reading a grammar and for the default
derivations of one this is worked out from the limits of the machine. For the other parts it is
given as it is: `Setting.shortage?` says of every stage of a command whether the machine is up to
it.
-/

namespace GrammarInference

namespace Cli

/-- A part of the work of a command. -/
inductive Stage
  /-- Reading what is at a path. -/
  | reading (path : Text)
  /-- Learning a grammar from seeds, among files. -/
  | learning (seeds : List Text) (w : Workspace)
  /-- Saving a grammar. -/
  | saving (g : Grammar)
  /-- Putting the printed form of a grammar together. -/
  | showing (g : Grammar)
  /-- Drawing a sample, showing it, and putting it to a program, among files. -/
  | sampling (s : Sampler) (t : Twister) (w : Workspace)

/-- What commands need to know of their surroundings. -/
structure Setting where
  /-- How programs are started among files. -/
  launcher : Launcher Workspace
  /-- The machine that the program runs on. -/
  machine : Machine
  /-- What the machine lacks for a stage of the work, if anything. -/
  shortage? : Stage → Option Shortage
  /-- What the output stream has against a line, if anything. -/
  streamFault? : Text → Option StreamFault
  /-- The file for a learned grammar when none is named. -/
  defaultOutput : Text

/-- Surroundings in which the machine is up to every stage, and the output stream takes every
line. -/
def Setting.ample (launcher : Launcher Workspace) (machine : Machine) (defaultOutput : Text) :
    Setting := ⟨launcher, machine, fun _ => none, fun _ => none, defaultOutput⟩

end Cli

end GrammarInference
