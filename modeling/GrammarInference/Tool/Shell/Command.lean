import GrammarInference.Tool.Shell.Lookup
import GrammarInference.Tool.Shell.Redirection

/-!
# Simple commands

A simple command sets variables, turns inputs and outputs elsewhere, and runs what its first word
means. Variables that are set for a command are known only to it, unless it is one of the special
commands of the shell; a mistake in one of those ends the script.
-/

namespace GrammarInference

namespace Shell

namespace Command

/-! ### Programs -/

/-- Takes the input of a tool without using it up: the text, when it is there, and the world after
it was used up. -/
def input : Act (Text × Float × World) := do
  let w ← Act.world
  match ← Act.streamOf? 0 with
  | none => return ([], 0, w)
  | some i =>
    match w.takeAll i with
    | (some taken, after) => return (taken.text, taken.time, after)
    | (none, after) => return ([], 0, after)

/-- Runs a tool, and gives its status. -/
def runTool (name : Text) (tool : Tool) (args : List Text) : Act Int := do
  let (text, time, after) ← input
  let result := tool (← Act.surroundings args text)
  if result.reads then
    Act.affect fun _ => after
    Act.waitUntil time
  Act.pass result.seconds
  let mut lost := false
  for (printed, t) in result.parts do
    if !t.isEmpty then
      let done ← Act.write (if printed then 1 else 2) t
      if printed && !done then lost := true
  return if lost then if Tool.baseName name = "grep".toList then 2 else 1 else result.status

/-- How the shell is called as a program. -/
structure Call where
  /-- The script, if it is an argument. -/
  script : Option Text := none
  /-- The file with the script, if there is one. -/
  file : Option Text := none
  /-- The name of the script. -/
  name : Text
  /-- The arguments of the script. -/
  arguments : List Text
  /-- Whether lines are read from the input as well. -/
  readsInput : Bool := false

/-- The options and arguments that the shell is called with: whether the script is an argument, and
what is left of the arguments. Every argument uses up a unit of fuel. -/
def callOptions : Nat → Bool → List Text → Act (Bool × List Text)
  | 0, c, rest => return (c, rest)
  | _ + 1, c, [] => return (c, [])
  | fuel + 1, c, a :: rest =>
    match a with
    | ['-'] => return (c, rest)
    | ['-', '-'] => return (c, rest)
    | '-' :: letters => do
      let rest ← Builtin.setLetters true (letters.filter (· ≠ 'c')) rest
      callOptions fuel (c || letters.contains 'c') rest
    | '+' :: letters => do
      let rest ← Builtin.setLetters false letters rest
      callOptions fuel c rest
    | a => return (c, a :: rest)

/-- How the shell is called with some arguments. -/
def callOf (name : Text) (args : List Text) : Act Call := do
  let (c, rest) ← callOptions (args.length + 1) false args
  let reads ← Act.hasOption 's'
  match c, rest with
  | true, [] => Act.fail "-c requires an argument".toList
  | true, [script] => return { script, name, arguments := [], readsInput := reads }
  | true, script :: name :: args => return { script, name, arguments := args, readsInput := reads }
  | false, [] => do
    Act.become fun p => { p with options := p.options.filter (· ≠ 's') ++ ['s'] }
    return { name, arguments := [], readsInput := true }
  | false, file :: args =>
    if reads then return { name, arguments := file :: args, readsInput := true }
    else return { file, name := file, arguments := args }

/-- Reads a script from the input. -/
def inputScript : Act Text := do
  let (text, time, after) ← input
  Act.affect fun _ => after
  Act.waitUntil time
  return text

/-- Carries out the script that the shell is called with. -/
def carryOut (r : Runner) (name : Text) (args : List Text) : Act Unit := do
  Act.become fun p => { p with line := 0, name }
  let call ← callOf name args
  match call.file with
  | some path =>
    let around ← Act.surroundings [] []
    let text ← match Redirect.standardNumber? path with
      | some 0 => inputScript
      | _ =>
        match Redirect.opened around false .read path with
        | .error wording => Act.fail wording
        | .ok _ => pure ((around.contentOf? path).getD [])
    Act.become fun p => { p with name := call.name, arguments := call.arguments }
    r.read false text
  | none =>
    Act.become fun p => { p with name := call.name, arguments := call.arguments, line := 1 }
    match call.script with
    | some t => r.read false t
    | none => pure ()
    if call.readsInput then
      let text ← inputScript
      let before := (← Act.self).status
      r.read false text
      if (text.all fun c => c = '\n' || c = ' ') then Act.setStatus before

/-- The variables that a shell starts with, after those that others let it know. -/
def firstVariables (known : List (Text × Variable)) : List (Text × Variable) :=
  let standard : List (Text × Text) :=
    [("IFS".toList, " \t\n".toList), ("OPTIND".toList, ['1']), ("PS1".toList, "# ".toList),
      ("PS2".toList, "> ".toList), ("PS4".toList, "+ ".toList)]
  let known := known.filter fun v => v.1 ≠ "IFS".toList && v.1 ≠ "OPTIND".toList
  known ++ (standard.filter fun v => !(known.any fun k => k.1 = v.1)).map fun (n, t) =>
    (n, { value := some t })

/-- Runs the shell as a program, and gives its status. -/
def runShell (r : Runner) (name : Text) (args : List Text) : Act Int := do
  let p ← Act.self
  let number ← modifyGet fun s =>
    (s.world.nextProcess, { s with world := { s.world with nextProcess := s.world.nextProcess + 1 } })
  let count := (← Act.world).streams.size
  let status ← Act.inCopy do
    let known := (p.values.filter fun v => v.2.exported && v.2.value.isSome).map fun (n, v) =>
      (n, { v with readonly := false })
    let ignored := p.traps.filter fun t => t.2.isEmpty
    Act.become fun _ =>
      { number, name, arguments := [], values := firstVariables known, streams := p.streams
        directory := p.directory, mask := p.mask, traps := ignored, calls := p.calls }
    match ← Act.caught (do
      let status ← r.toEnd (carryOut r name args)
      Act.stop (.replaced status)) with
    | some (.replaced status) => return status
    | some (.killed signal) => return -(signal : Int)
    | some s => Act.stop s
    | none => return 0
  Act.affect fun w => w.keepStreams count
  return status

/-- Runs a program, and gives its status. -/
def runProgram (r : Runner) (m : Meaning) (name : Text) (args : List Text) : Act Int := do
  match m with
  | .shell => runShell r name args
  | .tool tool => runTool name tool args
  | .denied =>
    Act.complain (name ++ ": Permission denied".toList)
    return 126
  | _ =>
    Act.complain (name ++ ": not found".toList)
    return 127

/-! ### Functions -/

/-- The greatest number of functions that run one inside another. -/
def deepestCall : Nat := 1000

/-- Calls a function. -/
def callFunction (r : Runner) (tested : Bool) (f : Function) (args : List Text) : Act Unit := do
  let outer ← Act.self
  if deepestCall ≤ outer.calls then
    Act.fail "Maximum function recursion depth (1000) reached".toList
  Act.become fun p => { p with
    arguments := args, optionIndex := 1, optionOffset := none, loops := 0, calls := p.calls + 1
    documents := f.documents }
  let stopped ← Act.caught (r.run tested f.body)
  Act.become fun p => { p with
    arguments := outer.arguments, optionIndex := outer.optionIndex
    optionOffset := outer.optionOffset, loops := outer.loops, calls := outer.calls
    documents := outer.documents }
  match stopped with
  | none => return
  | some .returning => return
  | some s => Act.stop s

/-! ### Commands of the shell -/

/-- Reads a file as a part of the script. -/
def source (r : Runner) (args : List Text) : Act Nat := do
  match ← Act.operands args with
  | [] => return 0
  | path :: _ =>
    if !path.contains '/' then Act.fail (path ++ ": not found".toList)
    let around ← Act.surroundings [] []
    let text ← match Redirect.opened around false .read path with
      | .error wording => Act.fail wording
      | .ok _ => pure ((around.contentOf? path).getD [])
    Act.become fun p => { p with command := some path }
    match ← Act.caught (r.read false text) with
    | none => pure ()
    | some .returning => pure ()
    | some s => Act.stop s
    return (← Act.self).status

/-- Reads the arguments as a part of the script. -/
def evaluate (r : Runner) (tested : Bool) (args : List Text) : Act Nat := do
  let args ← Act.operands args
  if args.isEmpty then return 0
  r.read tested ([' '].intercalate args)
  return (← Act.self).status

/-- Lets a program take the place of the shell. -/
def execute (r : Runner) (args : List Text) : Act Nat := do
  match ← Act.operands args with
  | [] => return 0
  | name :: args =>
    let m := Meaning.ofProgram (← Act.surroundings [] []) (← Act.self) name
    let status ← runProgram r m name args
    match m with
    | .denied => Act.finish (seenStatus status)
    | .missing => Act.finish (seenStatus status)
    | _ => Act.stop (.replaced status)

/-- Carries out a command of the shell. -/
def runBuiltin (r : Runner) (tested : Bool) (name : Text) (args : List Text) : Act Nat :=
  match Builtin.table.lookup name with
  | some act => act args
  | none =>
    if name = "eval".toList then evaluate r tested args
    else if name = "exec".toList then execute r args
    else if name = ".".toList then source r args
    else if name = "type".toList then Builtin.type args
    else Builtin.describeOne args

/-- Carries out a command of the shell under its name. Its mistakes may end the script. -/
def asBuiltin (r : Runner) (tested isSpecial : Bool) (name : Text) (args : List Text) :
    Act Unit := do
  let outer := (← Act.self).command
  Act.become fun p => { p with command := some name }
  match ← Act.caught (do Act.setStatus (← runBuiltin r tested name args)) with
  | none => Act.become fun p => { p with command := outer }
  | some .failing =>
    Act.become fun p => { p with command := outer }
    if isSpecial then Act.stop .failing
  | some s =>
    Act.become fun p => { p with command := outer }
    Act.stop s

/-! ### Words of a command -/

/-- The fields of the first words, up to a word that has any, and the words left. -/
def fill (r : Runner) : List Word → Act (List Text × List Word)
  | [] => return ([], [])
  | w :: ws => do
    match ← Expand.fields r w with
    | [] => fill r ws
    | fs => return (fs, ws)

/-- The beginning of a command. -/
structure Front where
  /-- Whether functions are left out, and mistakes do not end the script. -/
  plainly : Bool
  /-- The fields so far. -/
  fields : List Text
  /-- The words that are still to be expanded. -/
  words : List Word

/-- The beginning of a command without the commands that only lead to another one. Every field uses
up a unit of fuel. -/
def peel (r : Runner) : Nat → Front → Act Front
  | 0, f => return f
  | fuel + 1, f => do
    match f.fields with
    | [] => return f
    | name :: rest =>
      let p ← Act.self
      if name ≠ "command".toList || (!f.plainly && (p.functions.lookup name).isSome) then return f
      let (rest, words) ← if rest.isEmpty then fill r f.words else pure (rest, f.words)
      let same : Front := { f with fields := name :: rest, words }
      match rest with
      | [] => return same
      | a :: more =>
        if a = "--".toList then
          let (more, words) ← if more.isEmpty then fill r words else pure (more, words)
          if more.isEmpty then return { same with fields := name :: a :: more, words }
          peel r fuel ⟨true, more, words⟩
        else if a.head? = some '-' && 1 < a.length then
          if a.tail.all (· = 'p') then peel r fuel ⟨true, name :: more, words⟩
          else return same
        else peel r fuel ⟨true, rest, words⟩

/-- Whether a word starts with a name and an equals sign. -/
def isAssignment (w : Word) : Bool :=
  match w with
  | .text false t :: _ => t.contains '=' && isName (t.takeWhile (· ≠ '='))
  | _ => false

/-- The commands whose arguments can be assignments. -/
def assigningCommands : List Text :=
  ["export".toList, "readonly".toList, "local".toList, "alias".toList]

/-- All fields of a command. -/
def allFields (r : Runner) (assigns : Bool) (f : Front) : Act (List Text) := do
  let more ← f.words.mapM fun w =>
    if assigns && isAssignment w then do return [← Expand.text r w] else Expand.fields r w
  return f.fields ++ more.flatten

/-- Sets the variables of a command. -/
def assignAll (r : Runner) (isLocal : Bool) (as : List (Text × Word)) : Act (List Text) :=
  as.mapM fun (name, w) => do
    let t ← Expand.assigned r w
    if isLocal then Act.saveLocal name
    Act.assign name t
    if isLocal then Act.changeVariable name fun v => { v with exported := true }
    return name ++ '=' :: t

/-- Shows a command before it is run, if that is asked for. -/
def trace (stream : Option Nat) (words : List Text) : Act Unit := do
  if (← Act.hasOption 'x') && !words.isEmpty then
    let lead := (← Act.valueOf? "PS4".toList).getD []
    match stream with
    | some i =>
      modify fun s =>
        { s with world := (s.world.write i (lead ++ [' '].intercalate words ++ ['\n'])).2 }
    | none => pure ()

/-- Runs a command without words. -/
def bare (r : Runner) (as : List (Text × Word)) (rs : List Redirect) : Act Unit := do
  let errors ← Act.streamOf? 2
  match ← Redirect.during r rs (do trace errors (← assignAll r false as)) with
  | some () => Act.become fun p => { p with status := p.statusOfOutput }
  | none => Act.setStatus 2

/-- Runs a command with its fields. -/
def called (r : Runner) (tested : Bool) (as : List (Text × Word)) (rs : List Redirect)
    (plainly : Bool) (m : Meaning) (fields : List Text) : Act Unit := do
  let name := fields.head?.getD []
  let args := fields.tail
  let errors ← Act.streamOf? 2
  let isSpecial := !plainly && specialCommands.contains name && match m with
    | .builtin _ => true
    | _ => false
  let isExec := name = "exec".toList && match m with
    | .builtin _ => true
    | _ => false
  let act : Act Unit := do
    let shown ← assignAll r (!isSpecial) as
    if isExec && !args.isEmpty then
      for (n, _) in as do
        Act.changeVariable n fun v => { v with exported := true }
    trace errors (shown ++ fields)
    match m with
    | .builtin name => asBuiltin r tested isSpecial name args
    | .function f => callFunction r tested f args
    | m => Act.settle (← runProgram r m name args)
  let isFunction := match m with
    | .function _ => true
    | _ => false
  let act := if (!isSpecial && !as.isEmpty) || isFunction then Act.withLocals act else act
  let refused : Act Unit := do
    Act.setStatus 2
    if isSpecial then Act.stop .failing
  if isExec then
    if ← Redirect.keep r rs then act else refused
  else match ← Redirect.during r rs act with
    | some () => return
    | none => refused

/-- Runs a simple command. -/
def run (r : Runner) (tested : Bool) (line : Nat) (as : List (Text × Word)) (ws : List Word)
    (rs : List Redirect) : Act Unit := do
  Act.tick
  Act.become fun p => { p with line, statusOfOutput := 0 }
  let (fields, words) ← fill r ws
  if fields.isEmpty then bare r as rs
  else
    let front ← peel r (ws.length + fields.length + 1) ⟨false, fields, words⟩
    let name := front.fields.head?.getD []
    let m := Meaning.ofName (← Act.surroundings [] []) (← Act.self) (!front.plainly) name
    let assigns := assigningCommands.contains name && match m with
      | .builtin _ => true
      | _ => false
    let fields ← allFields r assigns front
    called r tested as rs front.plainly m fields

end Command

end Shell

end GrammarInference
