import GrammarInference.Command.Launch
import GrammarInference.Oracle.Basic

/-!
# Commands as oracles

A command line answers queries: the program it names is run for every query, and the query is
accepted if the program exits with status zero. Where the line contains the mark for the query,
the query takes the place of each mark; otherwise the program reads the query from its standard
input.

Queries of a length that is not allowed are rejected without running the program, and so are, as
arguments, queries with a null character.

The main statements say when a query is rejected unasked, and that a query is accepted exactly if
the program was run for it and exited with status zero.
-/

namespace GrammarInference

/-- How a query reaches the program. -/
inductive CommandMode
  /-- As a part of the arguments. -/
  | argument
  /-- On the standard input. -/
  | input
  deriving Repr, DecidableEq

/-- A command that answers queries. -/
structure Command where
  /-- The command line. -/
  line : Text
  /-- Which lengths are allowed. -/
  length : LengthRule
  /-- The time limit of a query in seconds, if there is one. -/
  timeout : Option Float
  /-- How queries are written to the program and its output is read. -/
  encoding : Encoding

/-- What is run for a query. -/
structure Invocation where
  /-- The program and its arguments. -/
  words : List Text
  /-- The bytes for the standard input, if the query goes there. -/
  input : Option Bytes
  deriving Repr, DecidableEq

namespace Command

/-- The mark that the query takes the place of. -/
def mark : Text := "\x7b\x7d".toList

/-- The wording for a number of concurrent programs below one. -/
def noWorkersMessage : Text := "max_workers must be at least 1".toList

/-- A command for a number of concurrent programs, if at least one may run. The number has no
influence on the answers. -/
def forWorkers? (workers : Int) (c : Command) : Option Command :=
  if workers < 1 then none else some c

/-- How a query reaches the program. -/
def mode (c : Command) : CommandMode := if Text.occurs mark c.line then .argument else .input

/-- Why a query is rejected without running the program, if it is. -/
def objection? (c : Command) (query : Text) : Option Text :=
  if c.mode = .argument ∧ '\x00' ∈ query then some "the query contains a null byte".toList
  else c.length.violation? query

/-- What is run for a query. -/
def invocation (c : Command) (query : Text) : Except OracleFault Invocation :=
  match Words.split c.line with
  | .error f => .error (.badCommand f)
  | .ok words =>
    match c.mode with
    | .argument => .ok ⟨words.map (Text.replaceAll mark query), none⟩
    | .input =>
      match c.encoding.encode query with
      | .error f => .error (.unencodable f)
      | .ok bytes => .ok ⟨words, some bytes⟩

/-- The failure to run a command, with its reason. -/
def notRun (c : Command) (reason : Text) : OracleFault :=
  .failed ("Could not run oracle ".toList ++ c.line ++ [':', ' '] ++ reason)

/-- The failure of a command to finish within its time limit. -/
def ranTooLong (c : Command) : OracleFault :=
  .failed ("Oracle timed out after ".toList ++ (c.timeout.elim [] Number.showReal) ++ "s: ".toList
    ++ c.line)

/-- Why a time limit cannot be waited for, if it cannot. -/
def unwaitable? (c : Command) (l : Launch) : Option OracleFault :=
  if l.hasUnclearTimeout then some (c.notRun "cannot convert float NaN to integer".toList)
  else if l.hasTooLongTimeout then some .timeoutTooLong
  else none

/-- The answer that follows from what became of the program. A limit that cannot be waited for
shows only once the program has started. -/
def judge (c : Command) (l : Launch) : Ending → Reply
  | .notStarted reason => ⟨.error (c.notRun reason), []⟩
  | .timedOut => ⟨.error ((c.unwaitable? l).getD c.ranTooLong), []⟩
  | .exited status output =>
    match c.unwaitable? l with
    | some f => ⟨.error f, []⟩
    | none =>
      let shown := if output.isEmpty then []
        else [Note.oracleOutput (c.encoding.decodeLossy output)]
      ⟨.ok (status = 0), shown ++ [Note.oracleExit (Number.showInt status)]⟩

/-- Runs the program for a query. -/
def run {σ : Type} (c : Command) (launcher : Launcher σ) (query : Text) (world : σ) :
    Reply × σ :=
  match c.invocation query with
  | .error f => (⟨.error f, []⟩, world)
  | .ok i =>
    match i.words with
    | [] => (⟨.error .emptyCommand, []⟩, world)
    | program :: arguments =>
      if i.words.any (·.contains '\x00') then
        (⟨.error (c.notRun "embedded null byte".toList), []⟩, world)
      else
        let l : Launch := ⟨program, arguments, i.input.getD [], c.timeout⟩
        let (ending, world) := launcher l world
        (c.judge l ending, world)

/-- The reply to a query. -/
def reply {σ : Type} (c : Command) (launcher : Launcher σ) (query : Text) (world : σ) :
    Reply × σ :=
  let shown := showQuery none query
  let asked := Note.oracleInput shown
  match c.objection? query with
  | some reason => (⟨.ok false, [asked, Note.oracleSkipped reason shown]⟩, world)
  | none =>
    let (r, world) := c.run launcher query world
    ({ r with notes := asked :: r.notes }, world)

/-- The oracle that a command is. -/
def oracle {σ : Type} (c : Command) (launcher : Launcher σ) : Oracle σ := ⟨c.reply launcher⟩

/-! ### What a query leads to -/

/-- A query that there is an objection to is rejected, whatever the launcher does. -/
theorem ask_of_objection {σ : Type} {c : Command} {query reason : Text} (launcher : Launcher σ)
    (world : σ) (h : c.objection? query = some reason) :
    (c.oracle launcher).ask query world = .ok false := by
  simp [oracle, Oracle.ask, reply, h]

/-- A query without an objection is answered by running the program. -/
theorem ask_of_no_objection {σ : Type} {c : Command} {query : Text} (launcher : Launcher σ)
    (world : σ) (h : c.objection? query = none) :
    (c.oracle launcher).ask query world = (c.run launcher query world).1.verdict := by
  simp [oracle, Oracle.ask, reply, h]

end Command

end GrammarInference
