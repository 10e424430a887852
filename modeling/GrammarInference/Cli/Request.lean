import GrammarInference.Cli.Form
import GrammarInference.Number.Numeral
import GrammarInference.Sample.Parameters

/-!
# What the command line asks for

There are three commands: to learn a grammar, to fuzz a program with samples of one, and to print
one. Each has its own form; flags for the log stand before the command.
-/

namespace GrammarInference

namespace Cli

/-- The request to learn a grammar. -/
structure LearnRequest where
  /-- The command line of the oracle. -/
  command : Text
  /-- The file for the grammar, if one is named. -/
  output : Option Text
  /-- The directory of the seeds. -/
  input : Text
  /-- The specification of the allowed lengths. -/
  length : Option Text
  /-- The name of the alphabet. -/
  alphabet : Text
  /-- The time limit of a query in seconds. -/
  timeout : Float
  /-- The number of queries allowed, if there is a limit. -/
  maxQueries : Option Int
  /-- The number of programs that may run at the same time. -/
  workers : Int

/-- The request to fuzz a program. -/
structure FuzzRequest where
  /-- The command line of the oracle. -/
  command : Text
  /-- The file of the grammar. -/
  input : Text
  /-- The number of samples. -/
  count : Int
  /-- The specification of the allowed lengths. -/
  length : Option Text
  /-- The seed of the random choices. -/
  seed : Int
  /-- The number of mutations of a sample. -/
  mutations : Int
  /-- The weights of the repetition counts. -/
  distribution : List Weight
  /-- How often a reference is expanded further. -/
  recursion : Float
  /-- The time limit of a query in seconds. -/
  timeout : Float

/-- What is to be done. -/
inductive Task
  /-- Learn a grammar. -/
  | learn (r : LearnRequest)
  /-- Fuzz a program. -/
  | fuzz (r : FuzzRequest)
  /-- Print the grammar in a file. -/
  | print (grammar : Text)

/-- What the command line asks for. -/
structure Request where
  /-- The name of the log level. -/
  log : Text
  /-- The file for the log, if one is named. -/
  file : Option Text
  /-- What is to be done, if anything. -/
  task : Option Task

/-! ### Flags -/

/-- A flag that any value suits. -/
def textFlag {σ : Type} (letter : Option Char) (name : String) (fill : σ → Text → σ) : Flag σ :=
  ⟨letter, name.toList, fun s t => some (fill s t)⟩

/-- A flag for an integer. -/
def intFlag {σ : Type} (letter : Option Char) (name : String) (fill : σ → Int → σ) : Flag σ :=
  ⟨letter, name.toList, fun s t => (Number.readInt? t).map (fill s)⟩

/-- A flag for a real number. -/
def realFlag {σ : Type} (letter : Option Char) (name : String) (fill : σ → Float → σ) : Flag σ :=
  ⟨letter, name.toList, fun s t => (Number.readReal? t).map (fill s)⟩

/-- The weights that a text lists with commas between them. -/
def weights? (t : Text) : Option (List Weight) :=
  (Text.cutAt ',' t).mapM fun part => (Number.readReal? part).map .real

/-! ### Forms -/

/-- The form for learning. -/
def learnForm : Form (LearnRequest × Bool) LearnRequest where
  start := (⟨[], none, "inputs".toList, none, "ASCII".toList, 10.0, none, 1⟩, false)
  flags :=
    [textFlag (some 'o') "output" fun (r, g) t => ({ r with output := some t }, g),
      textFlag (some 'i') "input" fun (r, g) t => ({ r with input := t }, g),
      textFlag (some 'l') "length" fun (r, g) t => ({ r with length := some t }, g),
      textFlag (some 'a') "alphabet" fun (r, g) t => ({ r with alphabet := t }, g),
      realFlag none "timeout" fun (r, g) x => ({ r with timeout := x }, g),
      intFlag none "max-queries" fun (r, g) n => ({ r with maxQueries := some n }, g),
      intFlag none "workers" fun (r, g) n => ({ r with workers := n }, g)]
  operand := .single fun (r, _) t => ({ r with command := t }, true)
  finish := fun (r, given) => if given then some r else none

/-- The form for fuzzing. The command and the grammar have to be given. -/
def fuzzForm : Form (FuzzRequest × Bool × Bool) FuzzRequest where
  start :=
    (⟨[], [], 15, none, 0, 40, [.real 0.2, .real 0.2, .real 0.2, .real 0.4], 0.2, 10.0⟩, false,
      false)
  flags :=
    [textFlag (some 'i') "input" fun (r, g, _) t => ({ r with input := t }, g, true),
      intFlag (some 'c') "count" fun (r, g) n => ({ r with count := n }, g),
      textFlag (some 'l') "length" fun (r, g) t => ({ r with length := some t }, g),
      intFlag (some 's') "seed" fun (r, g) n => ({ r with seed := n }, g),
      intFlag (some 'm') "mutations" fun (r, g) n => ({ r with mutations := n }, g),
      ⟨some 'd', "distribution".toList, fun (r, g) t =>
        (weights? t).map fun ws => ({ r with distribution := ws }, g)⟩,
      realFlag (some 'r') "recursion" fun (r, g) x => ({ r with recursion := x }, g),
      realFlag none "timeout" fun (r, g) x => ({ r with timeout := x }, g)]
  operand := .single fun (r, _, given) t => ({ r with command := t }, true, given)
  finish := fun (r, command, input) => if command && input then some r else none

/-- The form for printing. -/
def printForm : Form (Option Text) Text where
  start := none
  flags := []
  operand := .single fun _ t => some t
  finish := id

/-- Reads the arguments of a command. -/
def readTask (command : Text) (args : List Text) : Except Stop (Task × List Text) :=
  match String.ofList command with
  | "learn" => (learnForm.read args).map fun (r, left) => (.learn r, left)
  | "fuzz" => (fuzzForm.read args).map fun (r, left) => (.fuzz r, left)
  | "print" => (printForm.read args).map fun (t, left) => (.print t, left)
  | _ => .error .misuse

/-- The form of the whole command line. -/
def requestForm : Form Request Request where
  start := ⟨"WARNING".toList, none, none⟩
  flags :=
    [textFlag none "log" fun r t => { r with log := t },
      textFlag (some 'f') "file" fun r t => { r with file := some t }]
  operand := .rest fun r command args =>
    (readTask command args).map fun (task, left) => ({ r with task := some task }, left)
  finish := some

/-- What the arguments ask for. Nothing may be left over. -/
def Request.read (args : List Text) : Except Stop Request :=
  match requestForm.read args with
  | .error e => .error e
  | .ok (r, left) => if left.isEmpty then .ok r else .error .misuse

end Cli

end GrammarInference
