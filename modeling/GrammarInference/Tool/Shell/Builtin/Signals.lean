import GrammarInference.Tool.Shell.Builtin.Variables

/-!
# Signals and processes

The commands of the shell that send signals, say what is done on them, and wait for parts of the
script that run beside it. Only the processes of the script itself can be reached.
-/

namespace GrammarInference

namespace Shell

namespace Builtin

/-- Sends a signal to the shell that the script is run by. -/
def sendToShell (n : Nat) : Act Unit := do
  if n ≠ 0 then
    let number := (← Act.self).number
    Act.affect fun w => { w with sent := w.sent ++ [⟨number, n, w.clock⟩] }
    Act.heed

/-- Sends a signal to a part of the script. -/
def sendTo (n : Nat) (job : Job) : Act Unit := do
  if n = 0 || harmlessSignals.contains n then return
  if haltingSignals.contains n then
    Act.become fun p => { p with
      jobs := p.jobs.map fun j => if j.number = job.number then { j with finish := 1.0 / 0.0 } else j }
    Act.affect fun w => { w with clock := w.clock }
  else
    let now := (← Act.world).clock
    Act.become fun p => { p with
      jobs := p.jobs.map fun j =>
        if j.number = job.number then { j with finish := now, status := -(n : Int) } else j }
    let others := (← Act.self).jobs.filter fun j => j.number ≠ job.number
    Act.affect fun w => job.streams.foldl (fun w i => w.adjust i fun s =>
      { s with busyUntil := others.foldl (fun latest j =>
          if j.streams.contains i && latest < j.finish then j.finish else latest) now }) w

/-- How the command for signals is used. -/
def killUsage : Text :=
  "Usage: kill [-s sigspec | -signum | -sigspec] [pid | job]... or\nkill -l [exitstatus]".toList

/-- Sends a signal to processes. -/
def sendAll (n : Nat) : List Text → Act Nat
  | [] => return 0
  | a :: rest => do
    let p ← Act.self
    let number ← if a.head? = some '%' then pure ((p.jobs.getLast?.map Job.number).getD 0)
      else Act.numberOf a
    let now := (← Act.world).clock
    let status ←
      if number = p.number then do
        sendToShell n
        pure 0
      else match p.jobs.find? fun j => j.number = number && now < j.finish with
        | some job => do
          sendTo n job
          pure 0
        | none => do
          Act.complain "No such process\n".toList
          pure 1
    return max status (← sendAll n rest)

/-- Shows the names of signals. -/
def listSignals (args : List Text) : Act Nat := do
  match args with
  | [] => Act.print ("0\n".toList ++ signalNames.flatMap fun n => n ++ ['\n'])
  | a :: _ =>
    let n ← Act.numberOf a
    match if n = 0 ∨ n = 128 then none else signalName? (if 128 < n then n - 128 else n) with
    | some name => Act.print (name ++ ['\n'])
    | none => Act.fail ("invalid signal number or exit status: ".toList ++ a)

/-- The command that sends signals. -/
def kill (args : List Text) : Act Nat := do
  let send (n : Nat) (targets : List Text) : Act Nat :=
    if targets.isEmpty then Act.fail killUsage else sendAll n targets
  let named (name : Text) (rest : List Text) : Act Nat := do
    let rest ← Act.operands rest
    match signal? 1 name with
    | some n => send n rest
    | none => Act.fail ("invalid signal number or name: ".toList ++ name)
  match args with
  | ['-', 'l'] :: rest => listSignals (← Act.operands rest)
  | ['-', 's'] :: name :: rest => named name rest
  | ('-' :: 's' :: c :: name) :: rest =>
    match signal? 1 ('s' :: c :: name) with
    | some n => send n rest
    | none => named (c :: name) rest
  | ('-' :: name) :: rest =>
    match signal? 1 name with
    | some n => send n rest
    | none => do send 15 (← Act.operands (('-' :: name) :: rest))
  | args => send 15 args

/-- The command that says what is done on signals, or shows that. -/
def trap (args : List Text) : Act Nat := do
  let args ← Act.operands args
  match args with
  | [] =>
    let traps := (← Act.self).traps
    let lines := (List.range (signalNames.length + 1)).filterMap fun n =>
      (traps.lookup n).map fun t =>
        "trap -- ".toList ++ quoted t ++ [' '] ++ (signalName? n).getD [] ++ ['\n']
    Act.print lines.flatten
  | [signal] => setAll none [signal]
  | action :: signals => setAll (if action = ['-'] then none else some action) signals
where
  /-- Sets what is done on signals. -/
  setAll (action : Option Text) : List Text → Act Nat
    | [] => return 0
    | a :: rest => do
      match signal? 0 a with
      | none =>
        let _ ← Act.write 2 ("trap: ".toList ++ a ++ ": bad trap\n".toList)
        return 1
      | some n =>
        Act.become fun p => { p with
          traps := (action.toList.map fun t => (n, t)) ++ p.traps.filter fun old => old.1 ≠ n }
        setAll action rest

/-- Waits for parts of the script one after another. Gives the status of the last one, or that of a
signal that comes meanwhile and that something is done on. -/
def waitForAll (status : Nat) : List Job → Act Nat
  | [] => do
    Act.become fun p => { p with jobs := [] }
    return status
  | job :: rest => do
    match ← Act.firstTrapped job.finish with
    | some s =>
      Act.waitUntil s.time
      return 128 + s.signal
    | none =>
      Act.waitUntil job.finish
      Act.settle job.status
      waitForAll (seenStatus job.status) rest

/-- The command that waits for parts of the script. -/
def wait (args : List Text) : Act Nat := do
  let args ← Act.operands args
  let jobs := (← Act.self).jobs
  if args.isEmpty then
    let status ← waitForAll 0 jobs
    let isThrough := (← Act.self).jobs.isEmpty
    return if isThrough then 0 else status
  let mut status := 127
  for a in args do
    let number ← if a.head? = some '%' then pure ((jobs.getLast?.map Job.number).getD 0)
      else Act.numberOf a
    match jobs.find? fun j => j.number = number with
    | some job =>
      status ← waitForAll 0 [job]
      Act.become fun p => { p with jobs }
    | none => pure ()
  return status

end Builtin

end Shell

end GrammarInference
