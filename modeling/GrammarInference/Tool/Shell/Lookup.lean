import GrammarInference.Tool.Catalog
import GrammarInference.Tool.Shell.Builtin.Directory
import GrammarInference.Tool.Shell.Builtin.Input
import GrammarInference.Tool.Shell.Builtin.Signals
import GrammarInference.Tool.Shell.Condition
import GrammarInference.Tool.Shell.Format
import GrammarInference.Tool.Shell.Reader

/-!
# What names mean

The name of a command can mean a command of the shell itself, a function of the script, a tool, or
nothing. Commands of the shell whose mistakes end a script go before functions, all others come
after them.
-/

namespace GrammarInference

namespace Shell

namespace Builtin

/-- Prints the arguments. -/
def echo (args : List Text) : Act Nat := Act.print (Format.echo args)

/-- Prints the arguments in a format. -/
def printf (args : List Text) : Act Nat := do
  match ← Act.operands args with
  | [] => Act.fail "usage: printf format [arg ...]".toList
  | format :: args =>
    let p := Format.printf format args
    for complaint in p.complaints do
      Act.complain complaint
    let printed ← Act.print p.text
    return max p.status printed

/-- Decides a condition. -/
def condition (bracketed : Bool) (args : List Text) : Act Nat := do
  let words ←
    if bracketed then
      match args.getLast? with
      | some (']' :: _) => pure args.dropLast
      | _ => Act.fail "missing ]".toList
    else pure args
  match Condition.evaluate (← Act.surroundings [] []) words with
  | .ok true => return 0
  | .ok false => return 1
  | .error wording => Act.fail wording

/-- Leaves loops, as many as the argument says. -/
def leaveLoops (stop : Nat → Stop) (args : List Text) : Act Nat := do
  let n ← match args with
    | a :: _ => Act.numberOf a
    | [] => pure 1
  if n = 0 then Act.fail ("Illegal number: ".toList ++ (args.head?.getD []))
  let loops := (← Act.self).loops
  if loops = 0 then return 0
  Act.setStatus 0
  Act.stop (stop (min n loops))

/-- Leaves a function. -/
def return? (args : List Text) : Act Nat := do
  match args with
  | a :: _ => Act.setStatus ((← Act.numberOf a) % 256)
  | [] => pure ()
  Act.stop .returning

/-- Ends the shell. -/
def exit (args : List Text) : Act Nat := do
  let p ← Act.self
  match args with
  | a :: _ => Act.finish ((← Act.numberOf a) % 256)
  | [] => Act.finish (p.statusBeforeTrap.getD p.status)

/-- The commands of the shell that run no other commands. -/
def table : List (Text × (List Text → Act Nat)) :=
  [("[".toList, condition true), ("echo".toList, echo), (":".toList, fun _ => return 0),
    ("true".toList, fun _ => return 0), ("false".toList, fun _ => return 1),
    ("test".toList, condition false), ("printf".toList, printf), ("read".toList, read),
    ("exit".toList, exit), ("return".toList, return?), ("break".toList, leaveLoops .leaving),
    ("continue".toList, leaveLoops .resuming), ("shift".toList, shift), ("set".toList, set),
    ("export".toList, export?), ("readonly".toList, protect), ("local".toList, makeLocal),
    ("unset".toList, forget), ("getopts".toList, getOptions), ("alias".toList, setAliases),
    ("unalias".toList, forgetAliases), ("kill".toList, kill), ("trap".toList, trap),
    ("wait".toList, wait), ("cd".toList, changeDirectory), ("chdir".toList, changeDirectory),
    ("pwd".toList, showDirectory), ("umask".toList, setMask), ("hash".toList, fun _ => return 0),
    ("jobs".toList, fun _ => return 0),
    ("times".toList, fun _ => Act.print
      "0m0.000000s 0m0.000000s\n0m0.000000s 0m0.000000s\n".toList),
    ("ulimit".toList, fun _ => Act.print "unlimited\n".toList),
    ("bg".toList, fun _ => Act.fail "No current job".toList),
    ("fg".toList, fun _ => Act.fail "No current job".toList)]

/-- The commands of the shell that run other commands, or tell what these are. -/
def outerNames : List Text :=
  [".".toList, "eval".toList, "exec".toList, "command".toList, "type".toList]

/-- Whether a name is that of a command of the shell. -/
def has (name : Text) : Bool := outerNames.contains name || (table.lookup name).isSome

end Builtin

/-- What a name means. -/
inductive Meaning
  /-- A command of the shell. -/
  | builtin (name : Text)
  /-- A function. -/
  | function (f : Function)
  /-- The shell, as a program of its own. -/
  | shell
  /-- A tool. -/
  | tool (t : Tool)
  /-- A file that is no program. -/
  | denied
  /-- Nothing. -/
  | missing

namespace Meaning

/-- The names of the shell as a program. -/
def shellNames : List Text := ["sh".toList, "dash".toList]

/-- The directories in which programs are looked for. -/
def searchPath (p : Process) : List Text :=
  match (p.values.lookup "PATH".toList).bind Variable.value with
  | some t => Text.cutAt ':' t
  | none => []

/-- The path of a program without a slash in its name, if it is found. -/
def programPath? (p : Process) (name : Text) : Option Text :=
  if shellNames.contains name || (Tool.catalog.lookup name).isSome then
    ((searchPath p).find? fun d => d = "/usr/bin".toList ∨ d = "/bin".toList).map fun d =>
      d ++ '/' :: name
  else none

/-- What the name of a program means. -/
def ofProgram (around : Tool.Surroundings) (p : Process) (name : Text) : Meaning :=
  let base := Tool.baseName name
  let found := if name.contains '/' then base.length < name.length else (programPath? p name).isSome
  let other : Meaning :=
    if name.contains '/' && (around.held? name).isSome then .denied else .missing
  if !found then other
  else if shellNames.contains base then .shell
  else match Tool.catalog.lookup base with
    | some t => .tool t
    | none => other

/-- What a name means. Functions may be left out. -/
def ofName (around : Tool.Surroundings) (p : Process) (functions : Bool) (name : Text) : Meaning :=
  if specialCommands.contains name then .builtin name
  else match if functions then p.functions.lookup name else none with
    | some f => .function f
    | none => if Builtin.has name then .builtin name else ofProgram around p name

/-- How a name is described: in words, or briefly. Nothing if it means nothing. -/
def describe? (around : Tool.Surroundings) (p : Process) (briefly : Bool) (name : Text) :
    Option Text :=
  let say (wording : String) : Text :=
    name ++ (if briefly then [] else ' ' :: wording.toList) ++ ['\n']
  if Read.keywords.contains name then some (say "is a shell keyword")
  else match p.aliases.lookup name with
    | some t =>
      some (if briefly then "alias ".toList ++ Builtin.aliasLine (name, t)
        else name ++ " is an alias for ".toList ++ t ++ ['\n'])
    | none =>
      let path := (programPath? p name).getD name
      let program : Text :=
        if briefly then path ++ ['\n'] else name ++ " is ".toList ++ path ++ ['\n']
      match ofName around p true name with
      | .builtin _ =>
        some (say (if specialCommands.contains name then "is a special shell builtin"
          else "is a shell builtin"))
      | .function _ => some (say "is a shell function")
      | .shell => some program
      | .tool _ => some program
      | .denied => none
      | .missing => none

end Meaning

namespace Builtin

/-- Describes a name. Gives the status of that. -/
def describe (briefly : Bool) (name : Text) : Act Nat := do
  match Meaning.describe? (← Act.surroundings [] []) (← Act.self) briefly name with
  | some t => Act.print t
  | none =>
    if !briefly then
      let _ ← Act.print (name ++ ": not found\n".toList)
    return 127

/-- The command that describes names. -/
def type (args : List Text) : Act Nat := do
  let mut status := 0
  for a in args do
    status := max status (← describe false a)
  return status

/-- The command that describes a name, if it is not used to run one. -/
def describeOne (args : List Text) : Act Nat := do
  let (letters, args) ← Act.optionsAmong "pvV".toList args
  match letters.contains 'v' || letters.contains 'V', args with
  | true, a :: _ => describe (letters.getLast? = some 'v') a
  | _, _ => return 0

end Builtin

end Shell

end GrammarInference
