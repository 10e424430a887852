import GrammarInference.Grammar.Document
import GrammarInference.Learn.Learner
import GrammarInference.Sample.Sampler
import GrammarInference.Workspace

/-!
# What stops a command

A command stops with a complaint, a line that tells the user what to mend, or breaks down at a
fault that the program is not prepared for. This module says for every fault of the library which
of the two it is. What the machine lacks is never foreseen.
-/

namespace GrammarInference

namespace Cli

/-- Why a line cannot be written to the output stream. -/
inductive StreamFault
  /-- The encoding of the stream has no code for a character of the line. -/
  | unencodable (message : Text)
  /-- The operating system refuses. -/
  | refused (r : Refusal)
  deriving Repr, DecidableEq

/-- A fault that the program is not prepared for. -/
inductive Breakdown
  /-- The file with this path cannot be used. -/
  | file (path : Text) (fault : FileFault)
  /-- A file that has to be UTF-8 is not. -/
  | decode (fault : Encoding.DecodeFault)
  /-- The oracle gave no answer. -/
  | oracle (fault : OracleFault)
  /-- A node has no default text. -/
  | render (fault : RenderFault)
  /-- A saved grammar has an integer with too many digits. -/
  | tooManyDigits (count : Nat)
  /-- An integer among the weights is beyond all floating-point numbers. -/
  | hugeWeight
  /-- A node cannot be derived. -/
  | derive (fault : DeriveFault)
  /-- A class has a member that cannot be written or printed. -/
  | unwritable
  /-- A line cannot be written to the output stream. -/
  | stream (fault : StreamFault)
  /-- The machine lacks something. -/
  | exhausted (s : Shortage)
  deriving Repr, DecidableEq

/-- Why an action stops. -/
inductive Interruption
  /-- Something that the user is told in a line. -/
  | complaint (line : Text)
  /-- A fault that the program is not prepared for. -/
  | breakdown (b : Breakdown)
  deriving Repr, DecidableEq

/-- The wording of a breakdown. -/
def Breakdown.message : Breakdown → Text
  | .file path f => f.message path
  | .decode f => f.message
  | .oracle .timeoutTooLong => "timeout is too large".toList
  | .oracle _ => "the oracle command is empty".toList
  | .render _ => "a node has no default text".toList
  | .tooManyDigits count => Number.tooManyDigitsMessage count
  | .hugeWeight => "a weight is too large".toList
  | .derive _ => "a node cannot be derived".toList
  | .unwritable => "a character class has an unsuitable member".toList
  | .stream (.unencodable message) => message
  | .stream (.refused r) => "[Errno ".toList ++ Number.decimal r.number ++ [']', ' '] ++ r.wording
  | .exhausted .tooDeep => Json.depthMessage
  | .exhausted _ => "there is no room".toList

namespace Interruption

/-- An error message for the user. -/
def error (message : Text) : Interruption := .complaint ("Error: ".toList ++ message)

/-- A path that leads nowhere, or is no path, is the user's to mend. -/
def ofFileFault (path : Text) (f : FileFault) : Interruption :=
  match f with
  | .missing => error (f.message path)
  | .nullCharacter => error (f.message path)
  | .notDirectory => .breakdown (.file path f)
  | .isDirectory => .breakdown (.file path f)
  | .nameTooLong => .breakdown (.file path f)
  | .refused _ => .breakdown (.file path f)

/-- A line with a character that the output stream cannot show is reported. -/
def ofStreamFault (f : StreamFault) : Interruption :=
  match f with
  | .unencodable message => error message
  | .refused _ => .breakdown (.stream f)

/-- A grammar file that is no text is the user's to mend. -/
def ofReadFault (path : Text) (f : Workspace.ReadFault) : Interruption :=
  match f with
  | .file f => ofFileFault path f
  | .decode f => error f.message

/-- A command line without words and a time limit that is too long are not foreseen. -/
def ofOracleFault (f : OracleFault) : Interruption :=
  match f with
  | .failed message => error message
  | .badCommand f => error f.message
  | .unencodable f => error f.message
  | .emptyCommand => .breakdown (.oracle f)
  | .timeoutTooLong => .breakdown (.oracle f)

/-- A rule without a base case is reported; the other faults cannot arise from grammars in
order. -/
def ofRenderFault (f : RenderFault) : Interruption :=
  match f with
  | .noBaseCase name => error (noBaseCaseMessage name)
  | .missingRule _ => .breakdown (.render f)
  | .circular => .breakdown (.render f)
  | .shortage s => .breakdown (.exhausted s)

/-- A seed that is not accepted is reported in words of its own. -/
def ofFailure (f : Failure) : Interruption :=
  match f with
  | .noSeeds => error noSeedsMessage
  | .seedRejected shown seed =>
    .complaint ("Seed rejected: ".toList ++ seedRejectedMessage shown seed)
  | .oracle f => ofOracleFault f
  | .render f => ofRenderFault f
  | .unsuitableMember => .breakdown .unwritable
  | .grammar e => error e.message

/-- A bound with too many digits is reported. -/
def ofSaveFault (e : SaveFault) : Interruption :=
  match e with
  | .foreign => .breakdown .unwritable
  | .obstacle .tooManyDigits => error Number.unwritableDigitsMessage
  | .obstacle (.shortage s) => .breakdown (.exhausted s)

/-- A grammar that is not in order is reported. -/
def ofGrammarError (e : GrammarError) : Interruption :=
  match e with
  | .shortage s => .breakdown (.exhausted s)
  | e => error e.message

/-- A rule that does not exist is reported. -/
def ofDeriveFault (f : DeriveFault) : Interruption :=
  match f with
  | .unknownRule name => error (GrammarError.unknownRule name).message
  | .noBase => .breakdown (.derive f)
  | .nothingToChoose => .breakdown (.derive f)
  | .notText => .breakdown (.derive f)
  | .tooDeep => .breakdown (.derive f)
  | .exhausted s => .breakdown (.exhausted s)

/-- Parameters and grammars that are not in order are reported. -/
def ofSamplerError (e : SamplerError) : Interruption :=
  match e with
  | .parameter .hugeWeight => .breakdown .hugeWeight
  | .parameter e => error e.message
  | .grammar e => error e.message
  | .unprintable => .breakdown .unwritable
  | .derive f => ofDeriveFault f

end Interruption

end Cli

end GrammarInference
