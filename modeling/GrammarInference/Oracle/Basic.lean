import GrammarInference.Oracle.Length
import GrammarInference.Command.Words
import GrammarInference.Command.Encoding
import GrammarInference.Alphabet
import GrammarInference.Log

/-!
# Oracles

An oracle answers whether a text is a valid input. It may fail to answer, and it may leave notes
in the log. An oracle is a function of the text and of the world around it, which asking may
change. A fixed oracle has no such world: asked twice, it answers twice the same.

Several queries are answered in their order, up to the first one that fails.
-/

namespace GrammarInference

/-- Why an oracle gave no answer. -/
inductive OracleFault
  /-- The oracle could not be asked, or did not finish. -/
  | failed (message : Text)
  /-- The command line cannot be cut into words. -/
  | badCommand (fault : Words.Fault)
  /-- The query has no form in the encoding of the command's input. -/
  | unencodable (fault : Encoding.EncodeFault)
  /-- The command line has no words. -/
  | emptyCommand
  /-- The command was started with a time limit too long to wait for. -/
  | timeoutTooLong
  deriving Repr, DecidableEq

/-- What an oracle says to one query. -/
structure Reply where
  /-- The answer. -/
  verdict : Except OracleFault Bool
  /-- What the log gains. -/
  notes : List Note

/-- An oracle in a world `σ`. -/
structure Oracle (σ : Type) where
  /-- The reply to a query, and the world after it. -/
  reply : Text → σ → Reply × σ

/-- What an oracle says to several queries. -/
structure Batch where
  /-- The answers, in the order of the queries. -/
  verdicts : Except OracleFault (List Bool)
  /-- The queries that were put. -/
  put : List Text
  /-- What the log gains. -/
  notes : List Note

namespace Oracle

variable {σ : Type}

/-- The answer to a query. -/
def ask (o : Oracle σ) (t : Text) (world : σ) : Except OracleFault Bool :=
  (o.reply t world).1.verdict

/-- Puts several queries in their order, up to the first one without an answer. -/
def askAll (o : Oracle σ) : List Text → σ → Batch × σ
  | [], world => (⟨.ok [], [], []⟩, world)
  | t :: rest, world =>
    let (r, world) := o.reply t world
    match r.verdict with
    | .error f => (⟨.error f, [t], r.notes⟩, world)
    | .ok b =>
      let (more, world) := o.askAll rest world
      (⟨more.verdicts.map (b :: ·), t :: more.put, r.notes ++ more.notes⟩, world)

/-- An oracle that changes each query before passing it on. -/
def comap (o : Oracle σ) (f : Text → Text) : Oracle σ := ⟨fun t => o.reply (f t)⟩

/-- An oracle whose replies depend on the query alone. -/
def fixed (f : Text → Reply) : Oracle Unit := ⟨fun t world => (f t, world)⟩

/-- The reply of a function. Queries of a length that is not allowed are rejected without asking;
a message in place of an answer is a failure. -/
def replyOf (allowed : LengthRule) (f : Text → Except Text Bool) (t : Text) : Reply :=
  match allowed.violation? t with
  | some reason => ⟨.ok false, [Note.oracleSkipped reason (showQuery none t)]⟩
  | none =>
    match f t with
    | .ok b => ⟨.ok b, []⟩
    | .error message => ⟨.error (.failed ("Oracle function failed: ".toList ++ message)), []⟩

/-- An oracle that a function answers. -/
def ofFunction (allowed : LengthRule) (f : Text → Except Text Bool) : Oracle Unit :=
  fixed (replyOf allowed f)

end Oracle

end GrammarInference
