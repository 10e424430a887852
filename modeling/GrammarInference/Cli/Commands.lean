import GrammarInference.Cli.Console
import GrammarInference.Cli.Request
import GrammarInference.Command.Oracle
import GrammarInference.Grammar.Document
import GrammarInference.Learn.Synthesis

/-!
# The commands

Learning a grammar from the seeds in a directory, fuzzing a program with samples of a saved
grammar, and printing one. A command works through its request in a fixed order, so that of two
mistakes in it the first one is reported.

The programs that answer queries see the files as they are, and may change them.
-/

namespace GrammarInference

namespace Cli

/-- The command that answers queries, if its settings make sense. -/
def oracleCommand (line : Text) (length : LengthRule) (timeout : Float) (workers : Int) :
    Action Command :=
  match Command.forWorkers? workers ⟨line, length, some timeout, .latin1⟩ with
  | some c => pure c
  | none => .refuse Command.noWorkersMessage

/-- The rule for lengths that a specification gives. -/
def readLength (spec : Option Text) : Action LengthRule :=
  .get (fun e => .error e.message) (LengthRule.parse? spec)

/-- Prints a grammar. It depends on the command what is made of a line that the stream does not
take. -/
def printGrammar (s : Setting) (stop : StreamFault → Interruption) (g : Grammar) : Action Unit := do
  .spend s (.showing g)
  match g.format? with
  | some t => .print s stop t
  | none => throw (.breakdown .unwritable)

/-! ### Learning -/

/-- The seeds: the contents of the files in a directory, a character for each byte. -/
def readSeeds (s : Setting) (directory : Text) : Action (List Text) := do
  .spend s (.reading directory)
  let w ← .workspace
  let found ← .get (fun f => .breakdown (.file directory f)) (w.namesDirectory directory)
  if !found then .refuse ("Input directory not found: ".toList ++ directory)
  else
    match ← .get (fun e => .ofFileFault e.1 e.2) (w.contentsIn directory) with
    | [] => .refuse ("no seed inputs found in ".toList ++ directory)
    | contents => return contents.map fun bytes => bytes.map fun b => Char.ofNat b.toNat

/-- The alphabet with a name. -/
def readAlphabet (name : Text) : Action Alphabet :=
  match Alphabet.ofName? name with
  | some a => pure a
  | none => .refuse (Alphabet.unknownMessage name)

/-- The file for a learned grammar. An empty name is no name. -/
def LearnRequest.target (r : LearnRequest) (s : Setting) : Text :=
  match r.output with
  | none => s.defaultOutput
  | some [] => s.defaultOutput
  | some path => path

/-- Saves a grammar. The file is opened before the document is put together. -/
def saveGrammar (s : Setting) (path : Text) (g : Grammar) : Action Unit := do
  .note (Note.savingGrammar path)
  let p ← .openFile (Interruption.ofFileFault path) path
  .spend s (.saving g)
  let saved ← .get Interruption.ofSaveFault (g.save s.machine (some 2))
  .fillFile (Interruption.ofFileFault path) p (saved.flatMap Encoding.utf8Char)

/-- The last line of a report about learning. -/
def savedLine (path : Text) (queries : Nat) : Text :=
  "\nSaved grammar to ".toList ++ path ++ [' ', '('] ++ Number.decimal queries
    ++ " oracle queries)".toList

/-- Learns a grammar from seeds, saves and prints it. -/
def LearnRequest.perform (s : Setting) (r : LearnRequest) : Action Unit := do
  let length ← readLength r.length
  let alphabet ← readAlphabet r.alphabet
  let seeds ← readSeeds s r.input
  let command ← oracleCommand r.command length r.timeout r.workers
  let limits ← .get (fun e => .error e.message)
    (Limits.ofRequest { alphabet, maxQueries := r.maxQueries })
  let w ← .workspace
  .spend s (.learning seeds w)
  let session := Session.start (limits.maxQueries.map Int.ofNat) w
  let (result, session) := session.synthesize (command.oracle s.launcher) limits seeds
  .setWorkspace session.world
  .notes session.notes
  let g ← .get Interruption.ofFailure result
  let path := r.target s
  saveGrammar s path g
  printGrammar s Interruption.ofStreamFault g
  .print s Interruption.ofStreamFault (savedLine path session.queries)

/-! ### Saved grammars -/

/-- The grammar in a file. It depends on the command what is made of mistakes in it. -/
def loadGrammar (s : Setting) (ofRead : Workspace.ReadFault → Interruption)
    (ofGrammar : GrammarError → Interruption) (path : Text) : Action Grammar := do
  .note (Note.loadingGrammar path)
  .spend s (.reading path)
  let t ← .get ofRead ((← .workspace).readText path)
  .get ofGrammar (Grammar.load s.machine t)

/-! ### Fuzzing -/

/-- The length that samples are cut to: the end of a range. One exact length does not cut them. -/
def greatestLength : LengthRule → Option Int
  | .between _ high => some high
  | _ => none

/-- Draws a sample. -/
def drawSample (s : Sampler) (t : Twister) : Action (Text × Twister) := do
  let (result, t, notes) := s.sample.run.run Twister.source t
  .notes notes
  return (← .get Interruption.ofDeriveFault result, t)

/-- Puts samples to an oracle, and counts those that pass. -/
def fuzzWith (s : Setting) (sampler : Sampler) (o : Oracle Workspace) : Nat → Twister → Action Nat
  | 0, _ => return 0
  | count + 1, t => do
    .spend s (.sampling sampler t (← .workspace))
    let (sample, t) ← drawSample sampler t
    .print s Interruption.ofStreamFault ("Input: ".toList ++ showQuery none sample)
    let (r, w) := o.reply sample (← .workspace)
    .setWorkspace w
    .notes r.notes
    let passed ← .get Interruption.ofOracleFault r.verdict
    .print s Interruption.ofStreamFault (if passed then "pass".toList else "fail".toList)
    let more ← fuzzWith s sampler o count t
    return (if passed then more + 1 else more)

/-- The part of samples that passed. It has the sign of the number that was asked for. -/
def passRate (passed : Nat) (count : Int) : Float :=
  Number.ofQuotient (count < 0) passed count.natAbs

/-- Draws samples of a grammar and puts them to a program. -/
def FuzzRequest.perform (s : Setting) (r : FuzzRequest) : Action Unit := do
  let length ← readLength r.length
  let g ← loadGrammar s (Interruption.ofReadFault r.input) Interruption.ofGrammarError r.input
  let parameters ← .get (fun e => Interruption.ofSamplerError (.parameter e))
    (Parameters.ofRequest
      { distribution := r.distribution, recursionProbability := r.recursion })
  let sampler ← .get Interruption.ofSamplerError (Sampler.makeOn s.machine g parameters
    { maxLength := greatestLength length, mutations := r.mutations })
  let command ← oracleCommand r.command length r.timeout 1
  let oracle := command.oracle s.launcher
  let passed ← fuzzWith s sampler oracle r.count.toNat (Twister.ofSeed r.seed)
  .print s Interruption.ofStreamFault
    ("Pass rate: ".toList ++ Number.showReal (passRate passed r.count))

/-! ### Printing -/

/-- What becomes of a grammar that is not in order when it is to be printed: an integer with too
many digits is not foreseen, and neither is what the machine lacks. -/
def ofInvalid (e : GrammarError) : Interruption :=
  match e with
  | .tooManyDigits count => .breakdown (.tooManyDigits count)
  | .shortage s => .breakdown (.exhausted s)
  | e => .complaint ("Invalid grammar: ".toList ++ e.message)

/-- What becomes of a grammar file that cannot be read when it is to be printed: only a missing one
is foreseen. -/
def ofUnreadable (path : Text) (f : Workspace.ReadFault) : Interruption :=
  match f with
  | .file .missing => .error (FileFault.missing.message path)
  | .file f => .breakdown (.file path f)
  | .decode f => .breakdown (.decode f)

/-- Prints the grammar in a file. That the stream does not take a line is not foreseen. -/
def printFile (s : Setting) (path : Text) : Action Unit := do
  let g ← loadGrammar s (ofUnreadable path) ofInvalid path
  printGrammar s (fun f => .breakdown (.stream f)) g

end Cli

end GrammarInference
