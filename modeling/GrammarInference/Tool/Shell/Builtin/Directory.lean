import GrammarInference.Tool.Shell.Expand
import GrammarInference.Tool.Echo

/-!
# The directory of a shell

The commands of the shell about the directory that paths start from, and about the permissions of
new files, which have no effect here.
-/

namespace GrammarInference

namespace Shell

namespace Builtin

/-- The path of a place. The directory in which a script starts has no known name; a fixed one
stands for it. -/
def shownPlace : Place → Text
  | .inside path => "/tmp/work".toList ++ path.flatMap fun c => '/' :: Tool.spread c
  | .outside [] => ['/']
  | .outside path => path.flatMap fun c => '/' :: Tool.spread c

/-- Goes to a directory. -/
def goTo (path : Text) (shows : Bool) : Act Nat := do
  let around ← Act.surroundings [] []
  let place := around.locate? (if path.isEmpty then ['.'] else path)
  match place.filter fun p => around.workspace.holding? p = some .directory with
  | none => Act.fail ("can't cd to ".toList ++ path)
  | some place =>
    let old := (← Act.self).directory
    Act.become fun p => { p with directory := place }
    Act.assign "OLDPWD".toList (shownPlace old)
    Act.assign "PWD".toList (shownPlace place)
    if shows then Act.print (shownPlace place ++ ['\n']) else return 0

/-- The command that goes to a directory. -/
def changeDirectory (args : List Text) : Act Nat := do
  let (_, args) ← Act.optionsAmong "LP".toList (args.map fun a => if a = ['-'] then [] else a)
  match args with
  | [] => goTo ((← Act.valueOf? "HOME".toList).getD []) false
  | [] :: _ => goTo ((← Act.valueOf? "OLDPWD".toList).getD []) true
  | a :: _ => goTo a false

/-- The command that shows the directory. -/
def showDirectory (args : List Text) : Act Nat := do
  let _ ← Act.optionsAmong "LP".toList args
  Act.print (shownPlace (← Act.self).directory ++ ['\n'])

/-- Permissions by letters, of which some are left out. -/
def shownMask (mask : Nat) : Text :=
  let one (shift : Nat) : Text :=
    let bits := mask / Nat.pow 8 shift % 8
    (if bits / 4 % 2 = 0 then ['r'] else []) ++ (if bits / 2 % 2 = 0 then ['w'] else [])
      ++ if bits % 2 = 0 then ['x'] else []
  "u=".toList ++ one 2 ++ ",g=".toList ++ one 1 ++ ",o=".toList ++ one 0 ++ ['\n']

/-- The command that shows or sets what the permissions of new files leave out. -/
def setMask (args : List Text) : Act Nat := do
  let (letters, args) ← Act.optionsAmong ['S'] args
  match args with
  | [] =>
    let mask := (← Act.self).mask
    let digits := Nat.toDigits 8 mask
    Act.print (if letters.isEmpty then List.replicate (4 - digits.length) '0' ++ digits ++ ['\n']
      else shownMask mask)
  | a :: _ =>
    if a.head?.any Char.isDigit then
      if a.all fun c => (Tool.Echo.octalValue? c).isSome then
        let (mask, _) := Tool.Echo.octal a.length 0 a
        Act.become fun p => { p with mask := mask % 512 }
        return 0
      else Act.fail ("Illegal number: ".toList ++ a)
    else Act.fail ("Illegal mode: ".toList ++ a)

end Builtin

end Shell

end GrammarInference
