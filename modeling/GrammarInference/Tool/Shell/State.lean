import GrammarInference.Tool.Shell.Script
import GrammarInference.Tool.Shell.Signal
import GrammarInference.Tool.Shell.World

/-!
# What a running shell knows

A shell keeps variables, functions, arguments, options and the streams behind its numbers. A part
of a script that runs on its own gets a copy of all this, while the world is shared.

What a shell does is a computation that reads and changes this state, and that may stop before its
end: a loop is left, a function returns, a mistake ends the script, or time runs out.
-/

namespace GrammarInference

namespace Shell

/-- A variable. -/
structure Variable where
  /-- Its value, if it has been set. -/
  value : Option Text := none
  /-- Whether other programs get to know it. -/
  exported : Bool := false
  /-- Whether it stays as it is. -/
  readonly : Bool := false

/-- A function of a script. -/
structure Function where
  /-- What it does. -/
  body : Script
  /-- The documents of its body. -/
  documents : List Word

/-- A part of a script that is not waited for. -/
structure Job where
  /-- The number of its process. -/
  number : Nat
  /-- How it ends: its status, or a signal as a negative number. -/
  status : Int
  /-- When it ends. -/
  finish : Float
  /-- The streams that it may write to up to its end. -/
  streams : List Nat

/-- What a shell keeps. -/
structure Process where
  /-- The number of the process that the script calls its own. -/
  number : Nat
  /-- The name of the script. -/
  name : Text
  /-- The arguments. -/
  arguments : List Text
  /-- The variables. -/
  values : List (Text × Variable)
  /-- The functions. -/
  functions : List (Text × Function) := []
  /-- The other names of commands. -/
  aliases : List (Text × Text) := []
  /-- The letters of the options that are set. -/
  options : Text := []
  /-- The places of the streams behind the numbers of inputs and outputs. -/
  streams : List (Nat × Nat)
  /-- The directory that paths start from. -/
  directory : Place
  /-- What the permissions of new files leave out. -/
  mask : Nat := 18
  /-- What is done on a signal, or at the end. -/
  traps : List (Nat × Text) := []
  /-- The signals that have come and that something is still to be done on. -/
  signals : List Nat := []
  /-- The parts of the script that are not waited for. -/
  jobs : List Job := []
  /-- The number of the last one. -/
  lastJob : Option Nat := none
  /-- The status of the last command. -/
  status : Nat := 0
  /-- The status before a trap that is being dealt with. -/
  statusBeforeTrap : Option Nat := none
  /-- The status of the last output that was put into a word. -/
  statusOfOutput : Nat := 0
  /-- How many loops the script is in. -/
  loops : Nat := 0
  /-- How many functions are running. -/
  calls : Nat := 0
  /-- What local variables were before, for every function that is running. -/
  locals : List (List (Text × Option Variable)) := []
  /-- The place of the argument that options are read from next. -/
  optionIndex : Nat := 1
  /-- How many characters of the argument before that have been read, if some are left. -/
  optionOffset : Option Nat := none
  /-- The documents of the commands that are running. -/
  documents : List Word := []
  /-- The number of the line that is running. -/
  line : Nat := 1
  /-- The command that is running, if it is one of the shell itself. -/
  command : Option Text := none
  /-- Whether it runs on its own within a shell. -/
  isPart : Bool := false

/-- The world and a shell in it. -/
structure State where
  /-- The world. -/
  world : World
  /-- The shell. -/
  self : Process

/-- Why a shell does not go on with the next command. -/
inductive Stop
  /-- It leaves some loops. -/
  | leaving (loops : Nat)
  /-- It goes on with the next round of a loop, after leaving the loops inside that. -/
  | resuming (loops : Nat)
  /-- It leaves a function. -/
  | returning
  /-- It ends. -/
  | ending
  /-- A mistake ends it. -/
  | failing
  /-- Another program takes its place, and ends in a certain way. -/
  | replaced (status : Int)
  /-- A signal ends the shell that the script is run by. -/
  | killed (signal : Nat)
  /-- The time is over. -/
  | timedOut

/-- What a shell does. -/
abbrev Act := ExceptT Stop (StateM State)

namespace Act

/-- The shell. -/
def self : Act Process := return (← get).self

/-- The world. -/
def world : Act World := return (← get).world

/-- Changes the shell. -/
def become (f : Process → Process) : Act Unit := modify fun s => { s with self := f s.self }

/-- Changes the world. -/
def affect (f : World → World) : Act Unit := modify fun s => { s with world := f s.world }

/-- Stops. -/
def stop {α : Type} (s : Stop) : Act α := throw s

/-- Sets the status of the last command. -/
def setStatus (status : Nat) : Act Unit := become fun p => { p with status }

/-- Ends the shell with a status. -/
def finish {α : Type} (status : Nat) : Act α := do
  setStatus status
  stop .ending

/-- Runs for ever. -/
def endless {α : Type} : Act α := do
  affect fun w => { w with clock := 1.0 / 0.0 }
  stop .timedOut

/-- Whether a signal is for the shell, and one that it does nothing on although it should. -/
def isFatal (p : Process) (s : Sent) : Bool :=
  s.process = p.number && isGrave s.signal && (trapFor? p.traps s.signal).isNone

/-- Sees to the signals that have come by now: the shell ends, or notes them. Signals for the
shell do not reach its parts. -/
def heed : Act Unit := do
  let p ← self
  let w ← world
  if p.isPart || w.sent.isEmpty then return
  let (now, later) := w.sent.partition fun s => s.process = p.number && s.time ≤ w.clock
  affect fun w => { w with sent := later }
  for s in now do
    match trapFor? p.traps s.signal with
    | some t => if !t.isEmpty then become fun p => { p with signals := p.signals ++ [s.signal] }
    | none =>
      if haltingSignals.contains s.signal then endless
      else if isGrave s.signal then stop (.killed s.signal)

/-- Lets the clock go on to a time, or until a signal ends the shell. -/
def waitUntil (time : Float) : Act Unit := do
  let p ← self
  let w ← world
  let fatal := if p.isPart then none
    else w.sent.find? fun s => isFatal p s && s.time ≤ time
  let time := match fatal with
    | some s => s.time
    | none => time
  affect fun w => if w.clock < time then { w with clock := time } else w
  if (← world).deadline ≤ (← world).clock then stop .timedOut
  if fatal.isSome then heed

/-- The first signal for the shell up to a time that it does something on. -/
def firstTrapped (time : Float) : Act (Option Sent) := do
  let p ← self
  if p.isPart then return none
  return (← world).sent.find? fun s =>
    s.process = p.number && s.time < time && (trapFor? p.traps s.signal).any fun t => !t.isEmpty

/-- Lets the clock go on by some seconds. -/
def pass (seconds : Float) : Act Unit := do
  if 0 < seconds then waitUntil ((← world).clock + seconds)

/-- Counts a command. After too many of them the script counts as one that runs for ever. -/
def tick : Act Unit := do
  affect fun w => { w with steps := w.steps - 1 }
  if (← world).steps = 0 then endless

/-- Whether an option is set. -/
def hasOption (letter : Char) : Act Bool := return (← self).options.contains letter

/-! ### Streams -/

/-- The stream behind a number. -/
def streamOf? (number : Nat) : Act (Option Nat) := return (← self).streams.lookup number

/-- Writes a text to the stream behind a number. Tells whether that is possible. -/
def write (number : Nat) (t : Text) : Act Bool := do
  match ← streamOf? number with
  | none => return false
  | some i => modifyGet fun ⟨world, self⟩ =>
    let (done, world) := world.write i t
    (done, ⟨world, self⟩)

/-- Writes a complaint about the current line. -/
def complain (wording : Text) : Act Unit := do
  let p ← self
  let command := match p.command with
    | some c => c ++ ": ".toList
    | none => []
  let _ ← write 2 (p.name ++ ": ".toList ++ Number.decimal p.line ++ ": ".toList ++ command
    ++ wording ++ ['\n'])

/-- Stops because of a mistake. -/
def fail {α : Type} (wording : Text) : Act α := do
  complain wording
  setStatus 2
  stop .failing

/-- Prints a text. Gives the status of that. -/
def print (t : Text) : Act Nat := do
  if t.isEmpty then return 0
  if ← write 1 t then return 0
  complain ((← self).command.getD [] ++ ": I/O error".toList)
  return 1

/-- What a tool can look at when it runs in the shell. -/
def surroundings (arguments : List Text) (input : Text) : Act Tool.Surroundings := do
  let s ← get
  let placeOf? (number : Nat) : Option Place :=
    (s.self.streams.lookup number).bind s.world.placeOf?
  let inputFault : Option String :=
    match s.self.streams.lookup 0, placeOf? 0 with
    | none, _ => some "Bad file descriptor"
    | some _, some p =>
      if p ∈ s.world.workspace.directories then some "Is a directory" else none
    | some _, none => none
  return { arguments, input, workspace := s.world.workspace, directory := s.self.directory,
           source := placeOf? 0, target := placeOf? 1, inputFault }

/-! ### Variables -/

/-- A variable. -/
def known? (name : Text) : Act (Option Variable) := return (← self).values.lookup name

/-- The value of a variable. -/
def valueOf? (name : Text) : Act (Option Text) := return (← known? name).bind Variable.value

/-- Changes a variable. -/
def changeVariable (name : Text) (f : Variable → Variable) : Act Unit :=
  become fun p => { p with values := change f name p.values }
where
  /-- The variables with one of them changed. -/
  change (f : Variable → Variable) (name : Text) : List (Text × Variable) → List (Text × Variable)
    | [] => [(name, f {})]
    | (n, v) :: rest => if n = name then (n, f v) :: rest else (n, v) :: change f name rest

/-- Stops if a variable has to stay as it is. -/
def checkWritable (name : Text) : Act Unit := do
  if (← known? name).any Variable.readonly then fail (name ++ ": is read only".toList)

/-- Sets a variable. -/
def assign (name value : Text) : Act Unit := do
  checkWritable name
  let exported ← hasOption 'a'
  changeVariable name fun v => { v with value := some value, exported := v.exported || exported }
  if name = "OPTIND".toList then
    let n := Number.ofDigits (value.takeWhile Char.isDigit)
    become fun p => { p with optionIndex := if n = 0 then 1 else n, optionOffset := none }

/-- Forgets a variable. -/
def forget (name : Text) : Act Unit := do
  checkWritable name
  become fun p => { p with values := p.values.filter fun v => v.1 ≠ name }

/-- Notes what a variable is, so that it can be made that again. -/
def saveLocal (name : Text) : Act Unit := do
  let old ← known? name
  become fun p => { p with
    locals := match p.locals with
      | [] => []
      | saved :: rest =>
        if saved.any fun v => v.1 = name then saved :: rest else ((name, old) :: saved) :: rest }

/-- Carries something out and makes the variables that were noted meanwhile what they were. -/
def withLocals {α : Type} (act : Act α) : Act α := do
  become fun p => { p with locals := [] :: p.locals }
  let restore : Act Unit := become fun p =>
    match p.locals with
    | [] => p
    | saved :: rest =>
      let kept := p.values.filter fun v => !(saved.any fun s => s.1 = v.1)
      let again := saved.filterMap fun (n, v) => v.map fun v => (n, v)
      { p with locals := rest, values := again ++ kept }
  try
    let a ← act
    restore
    return a
  catch s =>
    restore
    throw s

/-! ### Arguments of commands -/

/-- The arguments after a mark that ends options. There are no options. -/
def operands (args : List Text) : Act (List Text) := do
  match args with
  | ['-', '-'] :: rest => return rest
  | ('-' :: c :: _) :: _ => fail ("Illegal option -".toList ++ [c])
  | args => return args

/-- The letters of the options at the front of arguments, and what follows them. -/
def optionsAmong (letters : Text) : List Text → Act (Text × List Text)
  | [] => return ([], [])
  | a :: rest =>
    match a with
    | ['-', '-'] => return ([], rest)
    | '-' :: c :: more => do
      match (c :: more).find? fun d => !letters.contains d with
      | some d => fail ("Illegal option -".toList ++ [d])
      | none =>
        let (ls, rest) ← optionsAmong letters rest
        return (c :: more ++ ls, rest)
    | a => return ([], a :: rest)

/-- The natural number that an argument denotes. -/
def numberOf (a : Text) : Act Nat := do
  let bad : Act Nat := fail ("Illegal number: ".toList ++ a)
  let (negative, t) := Number.takeSign (a.dropWhile fun c => c = ' ' || ('\t' ≤ c && c ≤ '\r'))
  let ds := t.takeWhile Char.isDigit
  let rest := t.drop ds.length
  let n := Number.ofDigits ds
  if ds.isEmpty || !(rest.all fun c => c = ' ' || ('\t' ≤ c && c ≤ '\r')) then bad
  else if (negative && n ≠ 0) || 2147483647 < n then bad
  else return n

/-! ### Parts that run on their own -/

/-- Carries something out and gives how that stops, if it does. -/
def caught (act : Act Unit) : Act (Option Stop) := do
  try
    act
    return none
  catch s => return some s

/-- Makes the shell what it was, whatever something does to it. The world remains as it is then. -/
def inCopy {α : Type} (act : Act α) : Act α := do
  let before ← self
  try
    let a ← act
    become fun _ => before
    return a
  catch s =>
    become fun _ => before
    throw s

end Act

end Shell

end GrammarInference
