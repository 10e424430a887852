import GrammarInference.Tool.Shell.Arithmetic
import GrammarInference.Tool.Shell.Fields
import GrammarInference.Tool.Shell.State

/-!
# Words of a running script

A word of a script becomes pieces when the values in it are looked up, arithmetic is done, and
scripts in it are run for their output. Such a script runs on its own, in a copy of the shell.

What carries scripts out is a parameter here, so that words do not have to know how that is done.
-/

namespace GrammarInference

namespace Shell

/-- How the parts of a script are carried out. -/
structure Runner where
  /-- Carries a script out; the argument says whether its failure is tested for. -/
  run : (tested : Bool) → Script → Act Unit
  /-- Reads a text as lines of a script and carries them out. -/
  read : (tested : Bool) → Text → Act Unit
  /-- Looks up the values in a word. -/
  expand : Word → Act (List Piece)

/-- The name of the trap for the end of a shell. -/
def endTrap : Nat := 0

/-- Sets the status that a process ended with. A signal is worth a message. -/
def Act.settle (status : Int) : Act Unit := do
  if status < 0 then
    match signalWordings.lookup status.natAbs with
    | some wording =>
      let _ ← Act.write 2 (wording ++ ['\n'])
    | none => pure ()
  Act.setStatus (seenStatus status)

namespace Runner

/-- Does what the script asks for at its end. -/
def atEnd (r : Runner) : Act Unit := do
  let p ← Act.self
  match p.traps.lookup endTrap with
  | none => return
  | some t =>
    Act.become fun p => { p with
      traps := p.traps.filter fun trap => trap.1 ≠ endTrap
      statusBeforeTrap := some p.status }
    match ← Act.caught (r.read false t) with
    | none => Act.setStatus p.status
    | some (.leaving _) => Act.setStatus p.status
    | some (.resuming _) => Act.setStatus p.status
    | some .returning => Act.setStatus p.status
    | some .ending => return
    | some .failing => return
    | some s => Act.stop s

/-- Carries something out up to the end of the shell, and gives its status, or a signal as a
negative number. -/
def toEnd (r : Runner) (act : Act Unit) : Act Int := do
  match ← Act.caught act with
  | some (.replaced status) => return status
  | some (.killed signal) => Act.stop (.killed signal)
  | some .timedOut => Act.stop .timedOut
  | _ =>
    match ← Act.caught r.atEnd with
    | some (.replaced status) => return status
    | some s => Act.stop s
    | none => return (← Act.self).status

/-- Carries something out in a part of the script that runs on its own. Only what is ignored stays
of the traps. -/
def inPart (r : Runner) (act : Act Unit) : Act Int := do
  let count := (← Act.world).streams.size
  let status ← Act.inCopy do
    Act.become fun p => { p with
      traps := p.traps.filter fun trap => trap.2.isEmpty
      signals := []
      jobs := []
      isPart := true }
    r.toEnd act
  Act.affect fun w => w.keepStreams count
  return status

/-- What something prints when it runs on its own, once nobody can write any more. -/
def outputOf (r : Runner) (act : Act Unit) : Act Text := do
  let i ← modifyGet fun s =>
    let (i, w) := s.world.opened ⟨.emptyPipe, true, true, 0⟩
    (i, { s with world := w })
  let status ← r.inPart do
    Act.become fun p => { p with streams := (1, i) :: p.streams.filter fun s => s.1 ≠ 1 }
    act
  Act.heed
  let taken ← modifyGet fun ⟨world, self⟩ =>
    let (taken, world) := world.takeAll i
    (taken, ⟨world.keepStreams i, self⟩)
  let outer := (← Act.self).status
  Act.settle status
  Act.become fun p => { p with status := outer, statusOfOutput := p.status }
  match taken with
  | some taken =>
    Act.waitUntil taken.time
    return taken.text
  | none => return []

end Runner

/-! ### Parameters -/

namespace Process

/-- The text that joins arguments into one: the first separator. -/
def joint (p : Process) : Text :=
  match (p.values.lookup "IFS".toList).bind Variable.value with
  | some t => t.take 1
  | none => [' ']

/-- The separators of fields. -/
def separators (p : Process) : Text :=
  match (p.values.lookup "IFS".toList).bind Variable.value with
  | some t => t
  | none => " \t\n".toList

/-- The letters of options in the order in which they are shown. -/
def optionOrder : Text := "pubaCEVvxsnmiIfe".toList

/-- The value of a parameter, if it has one. -/
def parameter? (p : Process) (name : Text) : Option Text :=
  match name with
  | [] => none
  | c :: _ =>
    if c = '@' ∨ c = '*' then some (p.joint.intercalate p.arguments)
    else if c = '#' then some (Number.decimal p.arguments.length)
    else if c = '?' then some (Number.decimal p.status)
    else if c = '$' then some (Number.decimal p.number)
    else if c = '!' then p.lastJob.map Number.decimal
    else if c = '-' then some (optionOrder.filter p.options.contains)
    else if c.isDigit then
      match Number.ofDigits name with
      | 0 => some p.name
      | n + 1 => p.arguments[n]?
    else (p.values.lookup name).bind Variable.value

end Process

/-- The complaint about an expression without a value. -/
def Arithmetic.Fault.message (f : Fault) (expression : Text) : Text :=
  let about (wording : String) : Text :=
    "arithmetic expression: ".toList ++ wording.toList ++ ": \"".toList ++ expression ++ ['"']
  match f with
  | .expectingPrimary => about "expecting primary"
  | .expectingEnd => about "expecting EOF"
  | .expectingClosing => about "expecting ')'"
  | .expectingColon => about "expecting ':'"
  | .divisionByZero => about "division by zero"
  | .illegalNumber t => "Illegal number: ".toList ++ t
  | .overflow => []

namespace Expand

/-- A value as a piece. -/
def wrap (quoted : Bool) (t : Text) : Piece := if quoted then .hard t else .soft t

/-- The arguments as pieces. -/
def arguments (quoted : Bool) (args : List Text) : List Piece :=
  if args.isEmpty then if quoted then [.gone] else []
  else (args.map (wrap quoted)).intersperse .border

/-- The value of an arithmetic expression; the variables that it sets are set. -/
def number (t : Text) : Act Text := do
  let p ← Act.self
  let valueOf? (name : Text) : Option Text := (p.values.lookup name).bind Variable.value
  match Arithmetic.read t >>= fun e => Arithmetic.evaluate valueOf? e [] with
  | .ok (n, settings) =>
    for (name, v) in settings.reverse do
      Act.assign name (Arithmetic.shown v)
    return Arithmetic.shown n
  | .error .overflow => Act.stop (.killed 8)
  | .error f => Act.fail (f.message t)

/-! ### Tildes -/

/-- The home directory and what follows in place of a text that starts with a tilde. -/
def home? (p : Process) (t : Text) (isWhole : Bool) : Option Word :=
  match t with
  | '~' :: rest =>
    if (isWhole && rest.isEmpty) || rest.head? = some '/' then
      ((p.values.lookup "HOME".toList).bind Variable.value).map fun home =>
        [.text true home, .text false rest]
    else none
  | _ => none

/-- A word with the home directory in place of a tilde at its start. -/
def atHome (p : Process) (w : Word) : Word :=
  match w with
  | .text false t :: rest =>
    match home? p t rest.isEmpty with
    | some front => front ++ rest
    | none => w
  | w => w

/-- A word that is the value of a variable, in which a tilde may stand after every colon. -/
def atHomes (p : Process) (w : Word) : Word :=
  match w with
  | .text false t :: rest =>
    if !t.contains '~' then w
    else
      let pieces := Text.cutAt ':' t
      let words : List Word := pieces.mapIdx fun n piece =>
        (home? p piece (rest.isEmpty || n + 1 < pieces.length)).getD [.text false piece]
      (words.intersperse [.text false [':']]).flatten ++ rest
  | w => w

/-- The pieces of the value of a parameter as it is used. -/
def value (r : Runner) (quoted : Bool) (name : Text) (use : Use) (orEmpty : Bool) (w : Word) :
    Act (List Piece) := do
  let p ← Act.self
  let found := p.parameter? name
  let missing := found.isNone || (orEmpty && found = some [])
  let expanded := r.expand (if quoted then w else atHome p w)
  let inner : Act (List Piece) := do
    let ps ← expanded
    return if quoted then ps else Piece.soften ps
  let whole : List Piece :=
    if name = ['@'] || (name = ['*'] && !quoted) then arguments quoted p.arguments
    else match found with
      | some t => [wrap quoted t]
      | none => if quoted then [.hard []] else []
  let checked : Act Text := do
    if found.isNone && (← Act.hasOption 'u') then
      Act.fail (name ++ ": parameter not set".toList)
    return found.getD []
  match use with
  | .plain =>
    let _ ← checked
    return whole
  | .length => return [wrap quoted (Number.decimal (← checked).length)]
  | .standard => if missing then inner else return whole
  | .alternative => if missing then return (if quoted then [.hard []] else []) else inner
  | .assign =>
    if !missing then return whole
    let t := Piece.joined p.joint (← expanded)
    if !isName name then Act.fail (name ++ ": bad variable name".toList)
    Act.assign name t
    return [wrap quoted t]
  | .demand =>
    if !missing then return whole
    let wording := Piece.joined p.joint (← expanded)
    Act.fail (name ++ ": ".toList ++ (
      if !w.isEmpty then wording
      else "parameter not set".toList ++ if orEmpty then " or null".toList else []))
  | .dropStart longest =>
    let t ← checked
    let glob := Piece.pattern p.joint (← r.expand w)
    return [wrap quoted (Glob.dropFront glob longest t)]
  | .dropEnd longest =>
    let t ← checked
    let glob := Piece.pattern p.joint (← r.expand w)
    return [wrap quoted (Glob.dropBack glob longest t)]
  | .wrong => Act.fail "Bad substitution".toList

/-- The pieces of a part of a word. -/
def part (r : Runner) : Part → Act (List Piece)
  | .text quoted t => return [if quoted then .hard t else .plain t]
  | .output quoted s => do
    let t ← r.outputOf (r.run false s)
    let t := t.filter (· ≠ '\x00')
    return [wrap quoted (t.reverse.dropWhile (· = '\n')).reverse]
  | .number quoted w => do
    let ps ← r.expand w
    return [wrap quoted (← number (Piece.joined (← Act.self).joint ps))]
  | .value quoted name use orEmpty w => value r quoted name use orEmpty w

/-- The pieces of a word. -/
def word (r : Runner) (w : Word) : Act (List Piece) := do
  match w with
  | [.text quoted t] => return [if quoted then .hard t else .plain t]
  | w => return (← w.mapM (part r)).flatten

/-- The fields of a word. -/
def fields (r : Runner) (w : Word) : Act (List Text) := do
  let p ← Act.self
  let ps ← r.expand (atHome p w)
  match ps with
  | [.plain t] =>
    -- A word without values and special characters is its own only field.
    if !(t.any fun c => Glob.isActive (c, false)) then return [t]
  | _ => pure ()
  let p ← Act.self
  let found := Piece.fields p.separators ps
  if p.options.contains 'f' then return found.map Glob.plainText
  let around ← Act.surroundings [] []
  return found.flatMap (Glob.paths around)

/-- The text of a word that is the value of a variable. -/
def assigned (r : Runner) (w : Word) : Act Text := do
  let ps ← r.expand (atHomes (← Act.self) w)
  return Piece.joined (← Act.self).joint ps

/-- The text of a word that is not cut into fields. -/
def text (r : Runner) (w : Word) : Act Text := do
  let ps ← r.expand (atHome (← Act.self) w)
  return Piece.joined (← Act.self).joint ps

end Expand

end Shell

end GrammarInference
