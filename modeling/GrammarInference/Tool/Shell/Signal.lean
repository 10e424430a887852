import GrammarInference.Text.Basic
import GrammarInference.Number.Numeral

/-!
# Signals

A process can be sent a signal. What follows from one depends on its number: most end the process,
some make it wait for ever, and some have no effect at all.
-/

namespace GrammarInference

namespace Shell

/-- The names of the signals from the first one on. -/
def signalNames : List Text :=
  ["HUP".toList, "INT".toList, "QUIT".toList, "ILL".toList, "TRAP".toList, "ABRT".toList,
    "BUS".toList, "FPE".toList, "KILL".toList, "USR1".toList, "SEGV".toList, "USR2".toList,
    "PIPE".toList, "ALRM".toList, "TERM".toList, "16".toList, "CHLD".toList, "CONT".toList,
    "STOP".toList, "TSTP".toList, "TTIN".toList, "TTOU".toList, "URG".toList, "XCPU".toList,
    "XFSZ".toList, "VTALRM".toList, "PROF".toList, "WINCH".toList, "IO".toList, "PWR".toList,
    "SYS".toList, "32".toList, "33".toList, "RTMIN".toList]
  ++ (List.range 15).map (fun n => "RTMIN+".toList ++ Number.decimal (n + 1))
  ++ (List.range 14).map (fun n => "RTMAX-".toList ++ Number.decimal (14 - n))
  ++ ["RTMAX".toList]

/-- The name of a signal; that of zero is the end of the shell. -/
def signalName? (n : Nat) : Option Text :=
  match n with
  | 0 => some "EXIT".toList
  | n + 1 => signalNames[n]?

/-- The number of a signal that is given by its name or number, from the least one allowed on. -/
def signal? (least : Nat) (t : Text) : Option Nat :=
  if !t.isEmpty && t.all Char.isDigit then
    let n := Number.ofDigits t
    if n ≤ signalNames.length then some n else none
  else
    let name := t.map Char.toUpper
    ((List.range (signalNames.length + 1)).drop least).find? fun n => signalName? n = some name

/-- The signals that nothing follows from. -/
def harmlessSignals : List Nat := [17, 18, 23, 28]

/-- The signals that make a process wait. -/
def haltingSignals : List Nat := [19, 20, 21, 22]

/-- The signals that nothing can be done on. -/
def firmSignals : List Nat := [9, 19]

/-- The status of a process as a script sees it: a signal counts from 128 on. -/
def seenStatus (status : Int) : Nat :=
  if status < 0 then 128 + status.natAbs else status.toNat % 256

/-- How the signals are called that are worth a message when they end a process. -/
def signalWordings : List (Nat × Text) :=
  [(1, "Hangup".toList), (3, "Quit".toList), (4, "Illegal instruction".toList),
    (5, "Trace/breakpoint trap".toList), (6, "Aborted".toList), (7, "Bus error".toList),
    (8, "Floating point exception".toList), (9, "Killed".toList),
    (10, "User defined signal 1".toList), (11, "Segmentation fault".toList),
    (12, "User defined signal 2".toList), (14, "Alarm clock".toList), (15, "Terminated".toList)]

/-- Whether a signal ends or halts a process that does nothing on it. -/
def isGrave (n : Nat) : Bool := n ≠ 0 && !harmlessSignals.contains n

/-- What a process does on a signal: nothing special, or something of its own. -/
def trapFor? (traps : List (Nat × Text)) (n : Nat) : Option Text :=
  if n ∈ firmSignals then none else traps.lookup n

end Shell

end GrammarInference
