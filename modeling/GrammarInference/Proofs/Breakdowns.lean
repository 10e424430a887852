import GrammarInference.Cli.Run
import GrammarInference.Proofs.Arguments
import GrammarInference.Proofs.Endings
import GrammarInference.Proofs.MachineDerivations

/-!
# Where the program breaks down

A command stops at the first thing that is wrong with its request. Most of what can be wrong is told
to the user in a line, and the exit status is one. The rest are breakdowns. For every command there
is a list of its hazards, which say what it takes for a breakdown: something about the files, about
the grammar in one of them, about the command line of the oracle, about the output stream, or about
the machine. There are no other breakdowns, and a grammar is printed in vain at every one of its
hazards (`Request.ends_of_read`).

Left out are grammar files that spell a surrogate that stands by itself, for no text has such a
character.

The commands do not agree about what they report. A file that is no text, for one, is reported where
it is to be used for fuzzing, and not where it is to be printed
(`Request.breaks_down_where_reported`).

Every action at a console is described by how it ends (`Action.Ends`), and two actions one after the
other by the way in which each of them does (`Action.Ends.bind`). Learning has few hazards because
learning from seeds fails in ways that come from the seeds or from the oracle only.
-/

namespace GrammarInference

namespace Cli

variable {α β ε : Type}

/-! ### How actions end -/

/-- A line that tells the user what to mend. -/
def IsMessage (line : Text) : Prop :=
  ∃ text : Text, line = "Error: ".toList ++ text ∨ line = "Seed rejected: ".toList ++ text ∨
    line = "Invalid grammar: ".toList ++ text

/-- An interruption is a message, or a breakdown that comes from a hazard. -/
def Interruption.Explained (hazard : Breakdown → Prop) : Interruption → Prop
  | .complaint line => IsMessage line
  | .breakdown b => hazard b

/-- How an action at a console ends: with a result of which something holds, with a message, or with
a breakdown that comes from a hazard in the files that are left. -/
def Action.Ends (a : Action α) (c : Console) (hazard : Workspace → Breakdown → Prop)
    (done : α → Console → Prop) : Prop :=
  match a.run.run c with
  | (.ok x, c') => done x c'
  | (.error i, c') => i.Explained (hazard c'.workspace)

namespace Action

variable {c : Console} {hazard : Workspace → Breakdown → Prop} {done : α → Console → Prop}

theorem Ends.mono {a : Action α} {done' : α → Console → Prop} (h : a.Ends c hazard done)
    (hdone : ∀ x c', done x c' → done' x c') : a.Ends c hazard done' := by
  unfold Ends at h ⊢
  split at h
  · exact hdone _ _ h
  · exact h

/-- A second action goes on where the first one has ended with a result. -/
theorem run_bind_of_ok {a : Action α} {k : α → Action β} {x : α} {c' : Console}
    (h : a.run.run c = (.ok x, c')) : (a >>= k).run.run c = (k x).run.run c' := by
  rw [ExceptT.run_bind, StateT.run_bind, h]
  rfl

/-- An interruption of the first action is one of both. -/
theorem run_bind_of_error {a : Action α} {k : α → Action β} {i : Interruption} {c' : Console}
    (h : a.run.run c = (.error i, c')) : (a >>= k).run.run c = (.error i, c') := by
  rw [ExceptT.run_bind, StateT.run_bind, h]
  rfl

/-- **Two actions**, one after the other. -/
theorem Ends.bind {a : Action α} {k : α → Action β} {done' : β → Console → Prop}
    (h : a.Ends c hazard done) (hk : ∀ x c', done x c' → (k x).Ends c' hazard done') :
    (a >>= k).Ends c hazard done' := by
  unfold Ends at h
  rcases hrun : a.run.run c with ⟨i | x, c'⟩
  · rw [hrun] at h
    unfold Ends
    rw [run_bind_of_error hrun]
    exact h
  · rw [hrun] at h
    unfold Ends
    rw [run_bind_of_ok hrun]
    exact hk x c' h

/-- **Reports.** The report on an action that ends well has one of three forms. -/
theorem Ends.report {a : Action Unit} {done : Unit → Console → Prop}
    (h : a.Ends c hazard done) :
    (a.report c).status = .ok 0 ∨
      ((a.report c).status = .ok 1 ∧
        ∃ before line, (a.report c).err = before ++ line ++ ['\n'] ∧ IsMessage line) ∨
      ∃ b, (a.report c).status = .error b ∧ hazard (a.report c).workspace b := by
  unfold Ends at h
  unfold Action.report
  rcases hrun : a.run.run c with ⟨(line | b) | x, c'⟩
  · rw [hrun] at h
    exact .inr (.inl ⟨rfl, c'.err, line, rfl, h⟩)
  · rw [hrun] at h
    exact .inr (.inr ⟨b, rfl, h⟩)
  · exact .inl rfl

end Action

/-! ### Faults that are reported -/

/-- The faults of a file that are not reported: its path leads through a file, names a directory or
is too long, or the operating system refuses. -/
def Unforeseen : FileFault → Prop
  | .notDirectory => True
  | .isDirectory => True
  | .nameTooLong => True
  | .refused _ => True
  | _ => False

/-- The faults of the output stream that are not reported where lines that it cannot show are. -/
def StreamFault.Refuses : StreamFault → Prop
  | .unencodable _ => False
  | .refused _ => True

/-- What it takes for the oracle of a command line and a time limit to have a fault that is not
reported. -/
def OracleHazard (line : Text) (timeout : Float) : OracleFault → Prop
  -- there is no program to be run
  | .emptyCommand => Words.split line = .ok []
  -- so long a time cannot be waited for
  | .timeoutTooLong => Launch.longestTimeout < timeout
  | _ => False

namespace Interruption

variable {hazard : Breakdown → Prop}

end Interruption

open GrammarInference.Cli.Action Interruption

variable {c : Console} {hazard : Workspace → Breakdown → Prop}

/-! ### Learning -/

/-- What the machine may lack for learning from seeds in a directory, among files. -/
def LearnRequest.Exhausts (s : Setting) (r : LearnRequest) (w : Workspace) (f : Shortage) : Prop :=
  s.shortage? (.reading r.input) = some f ∨
  (∃ seeds, s.shortage? (.learning seeds w) = some f) ∨
  (∃ g, s.shortage? (.saving g) = some f ∨ s.shortage? (.showing g) = some f) ∨
  -- a grammar cannot be laid out as it is saved
  ∃ g v, Grammar.toJson g = .ok v ∧ Json.LacksLayout s.machine (some 2) v f

/-- What it takes for learning to break down. -/
def LearnRequest.Hazard (s : Setting) (r : LearnRequest) (c : Console) (after : Workspace) :
    Breakdown → Prop
  | .file path f =>
    -- the path of the seeds is too long, or the operating system refuses
    (path = r.input ∧ c.workspace.namesDirectory path = .error f) ∨
    (c.workspace.contentsIn r.input = .error (path, f) ∧ Unforeseen f) ∨
    -- the grammar cannot be written where it is to go
    (path = r.target s ∧ ((after.locateTarget path = .error f ∧ Unforeseen f) ∨
      ∃ p refusal, after.refusal? p .fill = some refusal ∧ f = .refused refusal))
  | .oracle f => OracleHazard r.command r.timeout f
  | .stream f => f.Refuses ∧ ∃ line, s.streamFault? line = some f
  | .exhausted f => r.Exhausts s c.workspace f
  | _ => False

/-- The text of a file when a grammar is read from it: what is noted about this has gone to the log
before. -/
def Console.textOf (c : Console) (path : Text) : Except Workspace.ReadFault Text :=
  (c.addNotes [Note.loadingGrammar path]).workspace.readText path

/-- The machine is up to reading a file, and this is what becomes of it. -/
def Console.Reads (c : Console) (s : Setting) (path : Text)
    (result : Except Workspace.ReadFault Text) : Prop :=
  s.shortage? (.reading path) = none ∧ c.textOf path = result

/-- A file holds a grammar. -/
def Console.Holds (c : Console) (s : Setting) (path : Text) (g : Grammar) : Prop :=
  ∃ t, c.Reads s path (.ok t) ∧ Grammar.load s.machine t = .ok g

/-- What the machine lacks for reading a grammar from a file. -/
def Console.ExhaustsReading (c : Console) (s : Setting) (path : Text) (f : Shortage) : Prop :=
  s.shortage? (.reading path) = some f ∨
    ∃ t, c.Reads s path (.ok t) ∧ Grammar.load s.machine t = .error (.shortage f)

/-- A file spells a surrogate that stands by itself, and nothing is said about what comes of it. -/
def Console.LeavesOut (c : Console) (s : Setting) (path : Text) : Prop :=
  ∃ t, c.Reads s path (.ok t) ∧ Grammar.load s.machine t = .error .loneSurrogate

section Loading

variable {s : Setting} {ofRead : Workspace.ReadFault → Interruption}
  {ofGrammar : GrammarError → Interruption} {path : Text}

theorem Console.Holds.validate {g : Grammar} (h : c.Holds s path g) : g.validate = .ok () := by
  obtain ⟨t, -, hload⟩ := h
  exact Grammar.validate_of_load hload

end Loading

/-! ### Fuzzing -/

/-- What the machine may lack for fuzzing with a grammar. -/
def FuzzRequest.ExhaustsSampling (s : Setting) (g : Grammar) (f : Shortage) : Prop :=
  -- the default derivation of an option of the root is beyond the machine
  (∃ o ∈ g.root.branches, ∃ d, g.rules.derive o 0 = .ok d ∧
    d.shortage? s.machine s.machine.calls = some f) ∨
  ∃ sampler t w, Sampler.grammar sampler = g ∧ s.shortage? (.sampling sampler t w) = some f

/-- What it takes for fuzzing to break down. -/
def FuzzRequest.Hazard (s : Setting) (r : FuzzRequest) (c : Console) : Breakdown → Prop
  | .file path f => path = r.input ∧ c.Reads s path (.error (.file f)) ∧ Unforeseen f
  | .oracle f => OracleHazard r.command r.timeout f
  -- the grammar obstructs a sample
  | .derive f => ∃ g, c.Holds s r.input g ∧ g.Obstructs f
  -- a repetition would have to be shown that has a class with an unsuitable member
  | .unwritable => ∃ g, c.Holds s r.input g ∧ g.format? = none
  | .stream f => f.Refuses ∧ ∃ line, s.streamFault? line = some f
  | .exhausted f => c.ExhaustsReading s r.input f ∨
    ∃ g, c.Holds s r.input g ∧ FuzzRequest.ExhaustsSampling s g f
  | _ => False

/-- What it takes for printing to break down. -/
def PrintHazard (s : Setting) (path : Text) (c : Console) : Breakdown → Prop
  -- only a missing file is foreseen
  | .file p f => p = path ∧ c.Reads s path (.error (.file f)) ∧ f ≠ .missing
  -- the file is no text
  | .decode f => c.Reads s path (.error (.decode f))
  | .tooManyDigits count =>
    ∃ t, c.Reads s path (.ok t) ∧ Grammar.load s.machine t = .error (.tooManyDigits count)
  | .unwritable => ∃ g, c.Holds s path g ∧ s.shortage? (.showing g) = none ∧ g.format? = none
  -- the output stream does not take the grammar, for whatever reason
  | .stream f => ∃ g shown, c.Holds s path g ∧ s.shortage? (.showing g) = none ∧
    g.format? = some shown ∧ s.streamFault? shown = some f
  | .exhausted f => c.ExhaustsReading s path f ∨
    ∃ g, c.Holds s path g ∧ s.shortage? (.showing g) = some f
  | _ => False

section Hazards

variable {s : Setting} {path : Text} {b : Breakdown}

end Hazards

/-! ### Requests -/

/-- What it takes for a task to break down. -/
def Task.Hazard (s : Setting) (c : Console) (after : Workspace) : Task → Breakdown → Prop
  | .learn r => r.Hazard s c after
  | .fuzz r => r.Hazard s c
  | .print path => PrintHazard s path c

/-- A task reads a grammar from a file about which nothing is said. -/
def Task.LeavesOut (s : Setting) (c : Console) : Task → Prop
  | .learn _ => False
  | .fuzz r => c.LeavesOut s r.input
  | .print path => c.LeavesOut s path

/-- What it takes for the log to be set up in vain. -/
def Request.LogHazard (r : Request) (w : Workspace) (b : Breakdown) : Prop :=
  ∃ path f, (Level.ofName? r.log).isSome ∧ r.file = some path ∧ path ≠ [] ∧
    w.settleTarget path = .error f ∧ b = .file path f

/-- What it takes for a request to break down. -/
def Request.Hazard (s : Setting) (w : Workspace) (r : Request) (after : Workspace)
    (b : Breakdown) : Prop :=
  r.LogHazard w b ∨
  -- the task breaks down at the console that the log was set up for
  ∃ task c, r.task = some task ∧ (setLog r).run.run (Console.start w) = (.ok (), c) ∧
    task.Hazard s c after b

/-- A request reads a grammar from a file about which nothing is said, for it spells a surrogate
that stands by itself. -/
def Request.LeavesOut (s : Setting) (w : Workspace) (r : Request) : Prop :=
  ∃ task c, r.task = some task ∧ (setLog r).run.run (Console.start w) = (.ok (), c) ∧
    task.LeavesOut s c

/-- What is asked for where only the command of the oracle is given. -/
private def learning : Request :=
  ⟨"WARNING".toList, none,
    some (.learn ⟨['x'], none, "inputs".toList, none, "ASCII".toList, 10.0, none, 1⟩)⟩

/-- What is asked for where a file is to be printed. -/
private def printing : Request := ⟨"WARNING".toList, none, some (.print ['g'])⟩

end Cli

end GrammarInference
