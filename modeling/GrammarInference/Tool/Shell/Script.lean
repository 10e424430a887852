import GrammarInference.Text.Basic

/-!
# Shell scripts

What a script of the shell says: commands, joined by operators and control structures, and words,
which are put together from text and from values that are only known when the script runs.
-/

namespace GrammarInference

namespace Shell

/-- How the value of a parameter is used when it has one, or when it has none. -/
inductive Use
  /-- The value as it is. -/
  | plain
  /-- The length of the value. -/
  | length
  /-- A word in place of a missing value. -/
  | standard
  /-- A word in place of a missing value, which the parameter is set to. -/
  | assign
  /-- A failure if the value is missing. -/
  | demand
  /-- A word in place of a value that is there. -/
  | alternative
  /-- The value without a pattern at its start. -/
  | dropStart (longest : Bool)
  /-- The value without a pattern at its end. -/
  | dropEnd (longest : Bool)
  /-- A use that there is not. -/
  | wrong
  deriving Repr, DecidableEq

/-- Whether the word of a use is a pattern, in which quotes outside the braces have no effect. -/
def Use.isPattern : Use → Bool
  | .dropStart _ => true
  | .dropEnd _ => true
  | _ => false

/-- What an input or output of a command is turned to. -/
inductive Direction
  /-- Read from a file. -/
  | read
  /-- Read from a file and write to it. -/
  | update
  /-- Write to a file. -/
  | write
  /-- Write to a file even if existing files are protected. -/
  | replace
  /-- Write at the end of a file. -/
  | append
  /-- The same as another one. -/
  | same
  deriving Repr, DecidableEq

mutual

/-- A part of a word. -/
inductive Part
  /-- Text that stands for itself. -/
  | text (quoted : Bool) (t : Text)
  /-- The value of a parameter; `orEmpty` tells whether an empty value counts as missing. -/
  | value (quoted : Bool) (name : Text) (use : Use) (orEmpty : Bool) (word : List Part)
  /-- What a script prints. -/
  | output (quoted : Bool) (s : Script)
  /-- The value of an arithmetic expression. -/
  | number (quoted : Bool) (word : List Part)

/-- An input or output that is turned elsewhere. -/
inductive Redirect
  /-- It is turned to what a word names. -/
  | turn (stream : Nat) (direction : Direction) (target : List Part)
  /-- It is turned to a document of the script, by its number. -/
  | document (stream : Nat) (number : Nat)

/-- A script. -/
inductive Script
  /-- Assignments, words and redirections: a command with its arguments, and the number of its
  line. -/
  | simple (line : Nat) (assignments : List (Text × List Part)) (words : List (List Part))
      (redirects : List Redirect)
  /-- Commands of which each reads what the one before it prints. -/
  | pipeline (commands : List Script)
  /-- A script whose success counts as failure. -/
  | negated (s : Script)
  /-- The second script runs if the first one succeeds. -/
  | both (a b : Script)
  /-- The second script runs if the first one fails. -/
  | either (a b : Script)
  /-- Scripts one after another. -/
  | sequence (scripts : List Script)
  /-- A script that is not waited for. -/
  | background (s : Script)
  /-- A script whose assignments have no effect outside. -/
  | subshell (s : Script)
  /-- A script with its inputs and outputs turned elsewhere, and the number of its line. -/
  | turned (line : Nat) (s : Script) (redirects : List Redirect)
  /-- A condition, what runs if it succeeds, and what runs otherwise. -/
  | choice (condition yes no : Script)
  /-- Repetition while a condition succeeds, or until it does. -/
  | loop (untilTrue : Bool) (condition body : Script)
  /-- Repetition for each of some words, or for the arguments, and the number of its line. -/
  | each (line : Nat) (name : Text) (words : Option (List (List Part))) (body : Script)
  /-- The script of the first pattern that a word matches, and the number of its line. -/
  | select (line : Nat) (word : List Part) (branches : List (List (List Part) × Script))
  /-- The definition of a function. -/
  | function (name : Text) (body : Script)
  /-- A script with its documents. -/
  | withDocuments (documents : List (List Part)) (s : Script)

end

/-- A word of a script. -/
abbrev Word := List Part

instance : Inhabited Script := ⟨.sequence []⟩

/-- The script that does nothing. -/
def Script.nothing : Script := .sequence []

/-- A script with its documents, if it has any. -/
def Script.noting (documents : List Word) (s : Script) : Script :=
  match documents with
  | [] => s
  | documents => .withDocuments documents s

/-- A script with its inputs and outputs turned elsewhere, if they are. -/
def Script.turning (line : Nat) (redirects : List Redirect) (s : Script) : Script :=
  match redirects with
  | [] => s
  | redirects => .turned line s redirects

/-- Whether a text can be the name of a parameter. -/
def isName (t : Text) : Bool :=
  match t with
  | [] => false
  | c :: rest => (c.isAlpha || c = '_') && rest.all fun d => d.isAlphanum || d = '_'

/-- The commands of the shell whose mistakes end a script. -/
def specialCommands : List Text :=
  [".".toList, ":".toList, "break".toList, "continue".toList, "eval".toList, "exec".toList,
    "exit".toList, "export".toList, "local".toList, "readonly".toList, "return".toList,
    "set".toList, "shift".toList, "times".toList, "trap".toList, "unset".toList]

end Shell

end GrammarInference
