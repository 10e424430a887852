import GrammarInference.Text.Quoted

/-!
# Log notes

What the program reports on the side: notes with a level, shown when their level reaches the
threshold that was set. On a terminal a note starts with its level and the program's name.
-/

namespace GrammarInference

/-- How serious a note is, or how serious it has to be to be shown. -/
inductive Level
  /-- No threshold of its own: the general one, warnings, applies. -/
  | unset
  /-- Every query and every decision. -/
  | debug
  /-- Steps of the work. -/
  | info
  /-- Something to know about. -/
  | warning
  /-- A failure. -/
  | error
  /-- A failure that ends the program. -/
  | critical
  deriving Repr, DecidableEq

namespace Level

/-- The number that stands for a level. -/
def number : Level → Nat
  | .unset => 0
  | .debug => 10
  | .info => 20
  | .warning => 30
  | .error => 40
  | .critical => 50

/-- The name of a level in shown notes. -/
def name : Level → Text
  | .unset => "NOTSET".toList
  | .debug => "DEBUG".toList
  | .info => "INFO".toList
  | .warning => "WARNING".toList
  | .error => "ERROR".toList
  | .critical => "CRITICAL".toList

/-- The names a level can be asked for by. -/
def names : List (Text × Level) :=
  [("NOTSET".toList, .unset), ("DEBUG".toList, .debug), ("INFO".toList, .info),
    ("WARNING".toList, .warning), ("WARN".toList, .warning), ("ERROR".toList, .error),
    ("CRITICAL".toList, .critical), ("FATAL".toList, .critical)]

/-- The level with a given name, in any case. -/
def ofName? (name : Text) : Option Level :=
  (names.find? fun entry => entry.1 = Text.capitals name).map Prod.snd

/-- The wording for a name that no level has. -/
def unknownMessage (name : Text) : Text := "Invalid log level: ".toList ++ name

theorem ofName?_name (l : Level) : ofName? l.name = some l := by
  cases l <;> decide

end Level

/-- A note for the log. -/
structure Note where
  /-- How serious it is. -/
  level : Level
  /-- What it says. -/
  message : Text
  deriving Repr, DecidableEq

namespace Note

/-- Whether a note is shown at a threshold. -/
def passes (threshold : Level) (n : Note) : Bool :=
  if threshold = .unset then Level.warning.number ≤ n.level.number
  else threshold.number ≤ n.level.number

/-- A note on the terminal. -/
def line (n : Note) : Text :=
  ['['] ++ n.level.name ++ "] grammarfuzz: ".toList ++ n.message ++ ['\n']

/-- A note in a log file, without the time that stands before it. -/
def fileLine (n : Note) : Text :=
  n.level.name ++ " - ".toList ++ n.message ++ ['\n']

/-- A seed was accepted. -/
def seedAdded (shown : Text) : Note := ⟨.info, "Adding new seed input: ".toList ++ shown⟩

/-- A query is put to a command. -/
def oracleInput (shown : Text) : Note := ⟨.debug, "Oracle input: ".toList ++ shown⟩

/-- A query was refused without asking. -/
def oracleSkipped (reason shown : Text) : Note :=
  ⟨.debug, "Oracle failed because ".toList ++ reason ++ ": ".toList ++ shown⟩

/-- What a command printed. -/
def oracleOutput (output : Text) : Note := ⟨.debug, "Oracle output: ".toList ++ output⟩

/-- The status a command exited with. -/
def oracleExit (status : Text) : Note := ⟨.debug, "Oracle exit value: ".toList ++ status⟩

/-- A generalization was kept. -/
def generalized (kind detail : Text) : Note :=
  ⟨.info, "Generalized ".toList ++ kind ++ ": ".toList ++ detail⟩

/-- A generalization was not confirmed. -/
def rejected (kind detail : Text) : Note :=
  ⟨.debug, "Rejected ".toList ++ kind ++ ": ".toList ++ detail⟩

/-- The query budget is used up. -/
def budgetExhausted (limit : Text) : Note :=
  ⟨.warning, "Oracle query budget exhausted, limit: ".toList ++ limit⟩

/-- A grammar is about to be saved. -/
def savingGrammar (path : Text) : Note := ⟨.info, "Saving grammar to ".toList ++ path⟩

/-- A grammar is about to be loaded. -/
def loadingGrammar (path : Text) : Note := ⟨.info, "Loading grammar from ".toList ++ path⟩

end Note

end GrammarInference
