import GrammarInference.Tool.Shell.Expand

/-!
# Commands about variables, options and arguments

The commands of the shell that change what it keeps: variables and their properties, options, the
arguments and the other names of commands.

The main statement says that a quoted text without quotes in it stands between two of them.
-/

namespace GrammarInference

namespace Shell

namespace Builtin

/-- A text in quotes, so that the shell can read it back. Single quotes in it stand between double
quotes. Every step uses up a unit of fuel. -/
def quotedFrom : Nat → Text → Text
  | 0, _ => []
  | fuel + 1, t =>
    let plain := t.takeWhile (· ≠ '\'')
    let rest := t.drop plain.length
    let marks := rest.takeWhile (· = '\'')
    let more := rest.drop marks.length
    let front := '\'' :: plain ++ ['\'']
    if marks.isEmpty then front
    else front ++ '"' :: marks ++ '"' :: if more.isEmpty then [] else quotedFrom fuel more

/-- A text in quotes. -/
def quoted (t : Text) : Text := quotedFrom (t.length + 1) t

/-- A text without single quotes is written between two of them. -/
theorem quoted_of_plain {t : Text} (h : '\'' ∉ t) : quoted t = '\'' :: t ++ ['\''] := by
  have ht : t.takeWhile (· ≠ '\'') = t := by
    induction t with
    | nil => rfl
    | cons c rest ih =>
      simp only [List.mem_cons, not_or] at h
      have hc : c ≠ '\'' := fun he => h.1 he.symm
      simpa [List.takeWhile_cons, hc] using ih h.2
  simp only [quoted, quotedFrom, ht]
  simp

/-- The lines that show variables, in the order of their names. -/
def listing (front : Text) (vs : List (Text × Variable)) : Text :=
  (vs.mergeSort fun a b => !decide (b.1 < a.1)).flatMap fun (name, v) =>
    let lead := if front.isEmpty then [] else front ++ [' ']
    lead ++ name ++ (v.value.elim [] fun t => '=' :: quoted t) ++ ['\n']

/-- A name and what follows an equals sign, if there is one. -/
def splitAssignment (a : Text) : Text × Option Text :=
  let name := a.takeWhile (· ≠ '=')
  (name, if name.length < a.length then some (a.drop (name.length + 1)) else none)

/-- Stops if a text cannot be the name of a variable. -/
def checkName (name : Text) : Act Unit :=
  if isName name then return else Act.fail (name ++ ": bad variable name".toList)

/-- Gives variables a property, after setting those for which there is a value. -/
def mark (command : Text) (has : Variable → Bool) (give : Variable → Variable)
    (args : List Text) : Act Nat := do
  let (letters, args) ← Act.optionsAmong ['p'] args
  if !letters.isEmpty || args.isEmpty then
    Act.print (listing command ((← Act.self).values.filter fun v => has v.2))
  else
    for a in args do
      let (name, value) := splitAssignment a
      checkName name
      match value with
      | some t => Act.assign name t
      | none => pure ()
      Act.changeVariable name give
    return 0

/-- The command that makes variables known to other programs. -/
def export? (args : List Text) : Act Nat :=
  mark "export".toList Variable.exported (fun v => { v with exported := true }) args

/-- The command that protects variables. -/
def protect (args : List Text) : Act Nat :=
  mark "readonly".toList Variable.readonly (fun v => { v with readonly := true }) args

/-- The command that makes variables local to a function. -/
def makeLocal (args : List Text) : Act Nat := do
  let args ← Act.operands args
  if (← Act.self).locals.isEmpty then Act.fail "not in a function".toList
  for a in args do
    let (name, value) := splitAssignment a
    checkName name
    Act.saveLocal name
    match value with
    | some t => Act.assign name t
    | none => Act.changeVariable name id
  return 0

/-- The command that forgets variables or functions. -/
def forget (args : List Text) : Act Nat := do
  let (letters, args) ← Act.optionsAmong "vf".toList args
  for a in args do
    if letters.getLast? = some 'f' then
      Act.become fun p => { p with functions := p.functions.filter fun f => f.1 ≠ a }
    else
      let (name, _) := splitAssignment a
      checkName name
      Act.forget name
  return 0

/-! ### Options and arguments -/

/-- The options of the shell: their letters, if they have one, and their names. -/
def options : List (Option Char × Text) :=
  [(some 'e', "errexit".toList), (some 'f', "noglob".toList), (some 'I', "ignoreeof".toList),
    (some 'i', "interactive".toList), (some 'm', "monitor".toList), (some 'n', "noexec".toList),
    (some 's', "stdin".toList), (some 'x', "xtrace".toList), (some 'v', "verbose".toList),
    (some 'V', "vi".toList), (some 'E', "emacs".toList), (some 'C', "noclobber".toList),
    (some 'a', "allexport".toList), (some 'b', "notify".toList), (some 'u', "nounset".toList),
    (some 'p', "privileged".toList), (none, "nolog".toList), (none, "debug".toList)]

/-- Sets an option, or takes it back. -/
def setOption (on : Bool) (letter : Char) : Act Unit := do
  if !(options.any fun o => o.1 = some letter) then
    Act.fail ("Illegal option -".toList ++ [letter])
  Act.become fun p => { p with
    options := (p.options.filter (· ≠ letter)) ++ if on then [letter] else [] }

/-- Sets an option by its name, or takes it back. -/
def setNamed (on : Bool) (name : Text) : Act Unit := do
  match options.find? fun o => o.2 = name with
  | some (some letter, _) => setOption on letter
  | some (none, _) => return
  | none => Act.fail ("Illegal option -o ".toList ++ name)

/-- Shows which options are set, for a reader or as commands. -/
def showOptions (forReader : Bool) : Act Unit := do
  let p ← Act.self
  let isOn (o : Option Char × Text) : Bool := o.1.any p.options.contains
  let line (o : Option Char × Text) : Text :=
    if forReader then
      o.2 ++ List.replicate (16 - o.2.length) ' '
        ++ (if isOn o then "on\n".toList else "off\n".toList)
    else (if isOn o then "set -o ".toList else "set +o ".toList) ++ o.2 ++ ['\n']
  let lead := if forReader then "Current option settings\n".toList else []
  let _ ← Act.print (lead ++ options.flatMap line)

/-- Sets the options that the letters of an argument name, and gives the arguments left. -/
def setLetters (on : Bool) : Text → List Text → Act (List Text)
  | [], rest => return rest
  | 'o' :: more, rest => do
    match rest with
    | name :: rest =>
      setNamed on name
      setLetters on more rest
    | [] =>
      showOptions on
      setLetters on more []
  | letter :: more, rest => do
    setOption on letter
    setLetters on more rest

/-- Sets arguments anew. -/
def setArguments (args : List Text) : Act Unit :=
  Act.become fun p => { p with arguments := args, optionIndex := 1, optionOffset := none }

/-- Sets options and arguments. Every argument uses up a unit of fuel. -/
def setFrom : Nat → List Text → Act Unit
  | 0, _ => return
  | _ + 1, [] => return
  | fuel + 1, a :: rest =>
    match a with
    | ['-'] => do
      setOption false 'x'
      setOption false 'v'
      if !rest.isEmpty then setArguments rest
    | ['-', '-'] => setArguments rest
    | '-' :: letters => do setFrom fuel (← setLetters true letters rest)
    | '+' :: letters => do setFrom fuel (← setLetters false letters rest)
    | a => setArguments (a :: rest)

/-- The command that sets options and arguments, or shows the variables. -/
def set (args : List Text) : Act Nat := do
  if args.isEmpty then
    Act.print (listing [] ((← Act.self).values.filter fun v => v.2.value.isSome))
  else
    setFrom (args.length + 1) args
    return 0

/-- The command that leaves arguments out at the front. -/
def shift (args : List Text) : Act Nat := do
  let n ← match args with
    | a :: _ => Act.numberOf a
    | [] => pure 1
  let p ← Act.self
  if p.arguments.length < n then Act.fail "can't shift that many".toList
  setArguments (p.arguments.drop n)
  return 0

/-! ### Options of a script -/

/-- What reading one option leads to. -/
structure OptionStep where
  /-- The letter, or a question mark or a colon. -/
  letter : Char
  /-- The value for the variable of the argument; nothing if that is forgotten. -/
  argument : Option Text
  /-- A complaint. -/
  complaint : Option Text
  /-- The place of the next argument. -/
  index : Nat
  /-- How many characters of the argument before that have been read, if some are left. -/
  offset : Option Nat
  /-- Whether there are no more options. -/
  ended : Bool

/-- Reads the next option among some arguments. -/
def nextOption (allowed : Text) (args : List Text) (index : Nat) (offset : Option Nat) :
    OptionStep :=
  let earlier : Text :=
    match offset with
    | some n => if index ≤ 1 then [] else (args[index - 2]?.getD []).drop n
    | none => []
  let current : Option (Text × Nat) :=
    if !earlier.isEmpty then some (earlier, index)
    else match args[index - 1]? with
      | some ('-' :: c :: more) => some (c :: more, index + 1)
      | _ => none
  match current with
  | none => ⟨'?', some [], none, index, none, true⟩
  | some ([], index) => ⟨'?', some [], none, index, none, true⟩
  | some (c :: more, index) =>
    if c = '-' && more.isEmpty && earlier.isEmpty then ⟨'?', some [], none, index, none, true⟩
    else
      let silent := allowed.head? = some ':'
      let word := args[index - 2]?.getD []
      let offset := if more.isEmpty then none else some (word.length - more.length)
      match allowedFor c (allowed.length + 1) allowed with
      | none =>
        if silent then ⟨'?', some [c], none, index, offset, false⟩
        else ⟨'?', none, some ("Illegal option -".toList ++ [c]), index, offset, false⟩
      | some false => ⟨c, some [], none, index, offset, false⟩
      | some true =>
        if !more.isEmpty then ⟨c, some more, none, index, none, false⟩
        else match args[index - 1]? with
          | some a => ⟨c, some a, none, index + 1, none, false⟩
          | none =>
            if silent then ⟨':', some [c], none, index, none, false⟩
            else ⟨'?', none, some ("No arg for -".toList ++ [c] ++ " option".toList), index, none,
              false⟩
where
  /-- Whether a letter is allowed, and whether an argument belongs to it. -/
  allowedFor (c : Char) : Nat → Text → Option Bool
    | 0, _ => none
    | _ + 1, [] => none
    | fuel + 1, d :: rest =>
      if d = c then some (rest.head? = some ':')
      else allowedFor c fuel (if rest.head? = some ':' then rest.tail else rest)

/-- The command that reads the options of a script one after another. -/
def getOptions (args : List Text) : Act Nat := do
  match args with
  | allowed :: name :: given => do
    let p ← Act.self
    let words := if given.isEmpty then p.arguments else given
    let (index, offset) :=
      if words.length + 1 < p.optionIndex then (1, none) else (p.optionIndex, p.optionOffset)
    let step := nextOption allowed words index offset
    match step.complaint with
    | some wording =>
      let _ ← Act.write 2 (wording ++ ['\n'])
    | none => pure ()
    if !step.ended then
      match step.argument with
      | some t => Act.assign "OPTARG".toList t
      | none => Act.forget "OPTARG".toList
    Act.assign "OPTIND".toList (Number.decimal step.index)
    checkName name
    Act.assign name [step.letter]
    Act.become fun p => { p with optionIndex := step.index, optionOffset := step.offset }
    return if step.ended then 1 else 0
  | _ => Act.fail "Usage: getopts optstring var [arg...]".toList

/-! ### Other names -/

/-- The line that shows another name of a command. -/
def aliasLine (a : Text × Text) : Text := a.1 ++ '=' :: quoted a.2 ++ ['\n']

/-- The row of a table of aliases that a name is found in. They are shown row by row. -/
def aliasRow (name : Text) : Nat :=
  (((name.head?.elim 0 Char.toNat) * 16 + (name.map Char.toNat).foldl (· + ·) 0)) % 39

/-- The command that gives commands other names. -/
def setAliases (args : List Text) : Act Nat := do
  if args.isEmpty then
    let shown := (← Act.self).aliases.mergeSort fun a b => aliasRow a.1 ≤ aliasRow b.1
    Act.print (shown.flatMap aliasLine)
  else
    let mut status := 0
    for a in args do
      match splitAssignment a with
      | (name, some t) =>
        Act.become fun p => { p with
          aliases :=
            if (p.aliases.lookup name).isSome then
              p.aliases.map fun old => if old.1 = name then (name, t) else old
            else p.aliases ++ [(name, t)] }
      | (name, none) =>
        match (← Act.self).aliases.lookup name with
        | some t =>
          let _ ← Act.print (aliasLine (name, t))
        | none =>
          let _ ← Act.write 2 ("alias: ".toList ++ name ++ " not found\n".toList)
          status := 1
    return status

/-- The command that takes other names back. -/
def forgetAliases (args : List Text) : Act Nat := do
  let (letters, args) ← Act.optionsAmong ['a'] args
  if !letters.isEmpty then
    Act.become fun p => { p with aliases := [] }
    return 0
  let mut status := 0
  for a in args do
    if ((← Act.self).aliases.lookup a).isNone then
      let _ ← Act.write 2 ("unalias: ".toList ++ a ++ " not found\n".toList)
      status := 1
    Act.become fun p => { p with aliases := p.aliases.filter fun old => old.1 ≠ a }
  return status

end Builtin

end Shell

end GrammarInference
