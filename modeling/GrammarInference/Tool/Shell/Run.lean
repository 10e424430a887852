import GrammarInference.Tool.Shell.Command

/-!
# Running scripts

The parts of a script are carried out one by one; a part that runs on its own gets a copy of the
shell. The tool `sh` runs a script that is given as an argument, in a file or on its input.

Carrying out a part may lead to another one, so that everything here is built on a runner for the
parts inside. Runners are stacked up to a depth that scripts do not reach; one that does is ended
by the signal for a stack that is too large.
-/

namespace GrammarInference

namespace Shell

namespace Run

/-! ### Signals -/

/-- Does what the script asks for on the signals that have come. -/
def answer (r : Runner) : Act Unit := do
  Act.heed
  let p ← Act.self
  if p.signals.isEmpty || p.isPart then return
  for n in p.signals do
    Act.become fun p => { p with signals := p.signals.erase n }
    match (← Act.self).traps.lookup n with
    | none => pure ()
    | some t =>
      let before ← Act.self
      Act.become fun p => { p with
        statusBeforeTrap := some (p.statusBeforeTrap.getD p.status) }
      r.read false t
      Act.become fun p => { p with
        status := before.status, statusBeforeTrap := before.statusBeforeTrap }

/-! ### Loops -/

/-- Carries out a part of a loop, and tells whether the loop goes on. -/
def round (act : Act Unit) : Act Bool := do
  match ← Act.caught act with
  | none => return true
  | some (.leaving (n + 2)) => Act.stop (.leaving (n + 1))
  | some (.leaving _) => return false
  | some (.resuming (n + 2)) => Act.stop (.resuming (n + 1))
  | some (.resuming _) => return true
  | some s => Act.stop s

/-- Carries out a loop, inside of which there is one more loop to leave. -/
def inLoop (act : Act Unit) : Act Unit := do
  let loops := (← Act.self).loops
  Act.become fun p => { p with loops := loops + 1 }
  let stopped ← Act.caught act
  Act.become fun p => { p with loops }
  match stopped with
  | some s => Act.stop s
  | none => return

/-- Repeats a part while a condition succeeds, or until it does. The status is that of the last
round. -/
def repeatWhile (untilTrue : Bool) (condition body : Act Unit) : Nat → Nat → Act Unit
  | 0, _ => Act.endless
  | rounds + 1, status => do
    Act.tick
    if ← round condition then
      if ((← Act.self).status = 0) = untilTrue then Act.setStatus status
      else if ← round body then
        repeatWhile untilTrue condition body rounds (← Act.self).status
    else Act.setStatus status

/-- Repeats a part for each of some values. -/
def repeatEach (name : Text) (body : Act Unit) : List Text → Act Unit
  | [] => return
  | value :: rest => do
    Act.tick
    Act.assign name value
    if ← round body then repeatEach name body rest

/-- The loop over some values. -/
def each (r : Runner) (tested : Bool) (name : Text) (ws : Option (List Word)) (body : Script) :
    Act Unit := do
  let values ← match ws with
    | some ws => do pure (← ws.mapM (Expand.fields r)).flatten
    | none => Process.arguments <$> Act.self
  if values.isEmpty then Act.setStatus 0
  inLoop (repeatEach name (r.run tested body) values)

/-! ### Choices -/

/-- Whether a text matches one of some patterns. -/
def matchesAny (r : Runner) (t : Text) : List Word → Act Bool
  | [] => return false
  | w :: ws => do
    let ps ← r.expand (Expand.atHome (← Act.self) w)
    if Glob.accepts (Piece.pattern (← Act.self).joint ps) t then return true
    matchesAny r t ws

/-- Carries out the script of the first branch with a pattern that a text matches. -/
def select (r : Runner) (tested : Bool) (t : Text) : List (List Word × Script) → Act Unit
  | [] => Act.setStatus 0
  | (patterns, body) :: rest => do
    if ← matchesAny r t patterns then
      match body with
      | .sequence [] => Act.setStatus 0
      | body => r.run tested body
    else select r tested t rest

/-! ### Parts that run on their own -/

/-- How a part that ran on its own has ended. -/
structure Ended where
  /-- Its status, or a signal as a negative number. -/
  status : Int
  /-- When it ended. -/
  time : Float
  /-- Whether the time was over. -/
  late : Bool

/-- Carries a part out from a time on. Some of the commands that may still be carried out are left
for others. -/
def aside (r : Runner) (start : Float) (share : Nat → Nat) (act : Act Unit) : Act Ended := do
  let steps := (← Act.world).steps
  Act.affect fun w => { w with clock := start, steps := share steps }
  let left := steps - share steps
  let ended (e : Ended) : Act Ended := do
    Act.affect fun w => { w with steps := w.steps + left }
    return e
  try
    let status ← r.inPart act
    ended ⟨status, (← Act.world).clock, false⟩
  catch
    | .timedOut => ended ⟨-9, (← Act.world).clock, true⟩
    | s => throw s

/-- The number of bytes in a pipe from which on a writer has to wait for the reader. -/
def pipeCapacity : Nat := 65536

/-- Whether more was written to a pipe than fits into it. -/
def overflows (w : World) (i : Nat) : Bool :=
  match w.streams[i]?.map Stream.channel with
  | some (.pipe front back) =>
    pipeCapacity < ((front ++ back).map fun c => c.text.length).foldl (· + ·) 0
  | _ => false

/-- Carries out the commands of a pipeline, each of which reads what the one before it writes.
The result tells when all have ended, and how the last one did. -/
def pipes (r : Runner) (tested : Bool) (start : Float) : Option Nat → List Script → Act Ended
  | _, [] => return ⟨0, start, false⟩
  | input, [c] =>
    aside r start id do
      match input with
      | some i => Redirect.connect 0 (some i)
      | none => pure ()
      r.run tested c
  | input, c :: cs => do
    let i ← modifyGet fun ⟨world, self⟩ =>
      let (i, world) := world.opened ⟨.emptyPipe, true, true, 0⟩
      (i, ⟨world, self⟩)
    let first ← aside r start (· / 2) do
      match input with
      | some i => Redirect.connect 0 (some i)
      | none => pure ()
      Redirect.connect 1 (some i)
      r.run tested c
    Act.affect fun w => { w with clock := first.time }
    Act.affect fun w => w.keepBusy [i]
    -- A writer that nobody reads from any more is ended once the pipe is full.
    let full := overflows (← Act.world) i
    let rest ← pipes r tested start (some i) cs
    if first.late && full && !rest.late then return rest
    return { rest with
      time := if rest.time < first.time then first.time else rest.time
      late := rest.late || first.late }

/-- Carries out a pipeline. -/
def pipeline (r : Runner) (tested : Bool) (cs : List Script) : Act Unit := do
  Act.tick
  let w ← Act.world
  let ended ← pipes r tested w.clock none cs
  Act.affect fun now => { now.keepStreams w.streams.size with clock := ended.time }
  if ended.late then Act.stop .timedOut
  Act.settle ended.status

/-- Carries out a part that is not waited for. Its input is empty. -/
def background (r : Runner) (s : Script) : Act Unit := do
  Act.tick
  let w ← Act.world
  let p ← Act.self
  let ended ← aside r w.clock (· / 2) do
    Redirect.openFor 0 ⟨.null, true, false, 0⟩
    r.run false s
  let streams := p.streams.map Prod.snd
  Act.affect fun now =>
    let now := { now with clock := if ended.late then 1.0 / 0.0 else ended.time }
    { now.keepBusy streams with clock := w.clock, nextProcess := now.nextProcess + 1 }
  let number := w.nextProcess
  let job : Job :=
    { number, status := ended.status
      finish := if ended.late then 1.0 / 0.0 else ended.time
      streams }
  Act.become fun p => { p with jobs := p.jobs ++ [job], lastJob := some number }
  Act.setStatus 0

/-- Carries out a part whose changes of the shell have no effect outside. -/
def subshell (r : Runner) (tested : Bool) (s : Script) : Act Unit := do
  Act.tick
  Act.settle (← r.inPart (r.run tested s))

/-! ### Scripts -/

/-- Ends a shell in which failures do so, if there was one that nobody tested for. -/
def check (tested : Bool) : Act Unit := do
  let p ← Act.self
  if !tested && p.status ≠ 0 && p.options.contains 'e' then Act.stop .ending

/-- Carries scripts out one after another. -/
def sequence (r : Runner) (tested : Bool) : List Script → Act Unit
  | [] => return
  | [s] => r.run tested s
  | s :: ss => do
    r.run tested s
    sequence r tested ss

/-- Carries a script out. -/
def script (r : Runner) (tested : Bool) (s : Script) : Act Unit := do
  if (← Act.self).options.contains 'n' then return
  match s with
  | .simple line as ws rs =>
    Command.run r tested line as ws rs
    check tested
  | .pipeline cs =>
    pipeline r tested cs
    check tested
  | .negated s =>
    r.run true s
    Act.become fun p => { p with status := if p.status = 0 then 1 else 0 }
  | .both a b =>
    r.run true a
    if (← Act.self).status = 0 then r.run tested b
  | .either a b =>
    r.run true a
    if (← Act.self).status ≠ 0 then r.run tested b
  | .sequence ss => sequence r tested ss
  | .background s => background r s
  | .subshell s =>
    subshell r tested s
    check tested
  | .turned line s rs =>
    Act.become fun p => { p with line }
    match ← Redirect.during r rs (r.run tested s) with
    | some () => pure ()
    | none =>
      Act.setStatus 2
      check tested
  | .choice condition yes no =>
    r.run true condition
    if (← Act.self).status = 0 then r.run tested yes
    else match no with
      | .sequence [] => Act.setStatus 0
      | no => r.run tested no
  | .loop untilTrue condition body =>
    let rounds := (← Act.world).steps + 1
    inLoop (repeatWhile untilTrue (r.run true condition) (r.run tested body) rounds 0)
  | .each line name ws body =>
    Act.become fun p => { p with line }
    each r tested name ws body
  | .select line word branches =>
    Act.become fun p => { p with line }
    select r tested (← Expand.text r word) branches
  | .function name body =>
    Act.become fun p => { p with
      functions := (name, ⟨body, p.documents⟩) :: p.functions.filter fun f => f.1 ≠ name
      status := 0 }
  | .withDocuments documents s =>
    let outer := (← Act.self).documents
    Act.become fun p => { p with documents }
    let stopped ← Act.caught (r.run tested s)
    Act.become fun p => { p with documents := outer }
    match stopped with
    | some s => Act.stop s
    | none => return
  answer r

/-- Reads lines of a script and carries them out. Every line uses up a unit of fuel. -/
def linesFrom (r : Runner) (tested : Bool) : Nat → Bool → Nat → Text → Act Unit
  | 0, _, _, _ => return
  | fuel + 1, first, number, t => do
    match nextLine? t number with
    | none =>
      Act.become fun p => { p with line := number }
      Act.fail "Syntax error".toList
    | some none => if first then Act.setStatus 0
    | some (some (s, rest, number)) =>
      r.run tested s
      linesFrom r tested fuel false number rest

/-- The runner whose parts inside are carried out by another one. -/
def onTopOf (r : Runner) : Runner where
  run := script r
  read tested t := linesFrom r tested (t.length + 1) true 1 t
  expand := Expand.word r

/-- The runner that carries nothing out: the stack is too large. -/
def exhausted : Runner where
  run _ _ := Act.stop (.killed 11)
  read _ _ := Act.stop (.killed 11)
  expand _ := Act.stop (.killed 11)

/-- Runners stacked on each other. -/
def stacked : Nat → Runner
  | 0 => exhausted
  | depth + 1 => onTopOf (stacked depth)

end Run

/-- The greatest depth of parts inside each other. -/
def greatestDepth : Nat := 6000

/-- The greatest number of commands that a script carries out; one that has more of them runs for
ever. -/
def mostSteps : Nat := 400000

/-- The number of the first process. -/
def firstProcess : Nat := 4096

/-- The path in which programs are looked for. -/
def standardPath : Text := "/usr/local/sbin:/usr/local/bin:/usr/sbin:/usr/bin:/sbin:/bin".toList

/-- What comes out of running the shell with arguments: its status, its output, how long that takes
and the files then. Nothing lasts longer than up to the deadline. -/
def shell (name : Text) (deadline : Float) (around : Tool.Surroundings) :
    Tool.Result × Workspace :=
  let input : Stream :=
    if around.input.isEmpty then ⟨.null, true, true, 0⟩ else ⟨.holding around.input, true, false, 0⟩
  let output : Stream := ⟨.emptyPipe, false, true, 0⟩
  let world : World :=
    { workspace := around.workspace, streams := #[input, output, ⟨.null, true, true, 0⟩]
      deadline, steps := mostSteps, nextProcess := firstProcess }
  let known (n : String) (t : Text) : Text × Variable :=
    (n.toList, { value := some t, exported := true })
  let outside : Process :=
    { number := 1, name, arguments := [], streams := [(0, 0), (1, 1), (2, 2)]
      directory := around.directory
      values := [known "HOME" "/root".toList, known "PATH" standardPath,
        known "PWD" (Builtin.shownPlace around.directory)] }
  let act : Act Int := Command.runShell (Run.stacked greatestDepth) name around.arguments
  let (r, s) := act.run.run ⟨world, outside⟩
  let finish : Float := match s.world.streams[1]? with
    | some o => if o.busyUntil < s.world.clock then s.world.clock else o.busyUntil
    | none => s.world.clock
  let result : Tool.Result :=
    { status := match r with
        | .ok status => status
        | .error _ => -9
      output := (s.world.streams[1]?.elim [] fun o => o.channel.contents)
      seconds := match r with
        | .error .timedOut => 1.0 / 0.0
        | _ => finish }
  (result, s.world.workspace)

end Shell

end GrammarInference
