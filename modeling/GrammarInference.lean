import GrammarInference.Alphabet
import GrammarInference.CharClass.Basic
import GrammarInference.CharClass.Checks
import GrammarInference.CharClass.Format
import GrammarInference.CharClass.Symbol
import GrammarInference.Cli.Commands
import GrammarInference.Cli.Console
import GrammarInference.Cli.Form
import GrammarInference.Cli.Interruption
import GrammarInference.Cli.Paths
import GrammarInference.Cli.Request
import GrammarInference.Cli.Run
import GrammarInference.Command.Encoding
import GrammarInference.Command.Launch
import GrammarInference.Command.Oracle
import GrammarInference.Command.Words
import GrammarInference.Grammar.Compact
import GrammarInference.Grammar.Document
import GrammarInference.Grammar.Error
import GrammarInference.Grammar.Format
import GrammarInference.Grammar.Node
import GrammarInference.Grammar.Render
import GrammarInference.Grammar.Rules
import GrammarInference.Grammar.Validate
import GrammarInference.Json.Reader
import GrammarInference.Json.Value
import GrammarInference.Json.Writer
import GrammarInference.Learn.Align
import GrammarInference.Learn.Generalize
import GrammarInference.Learn.Learner
import GrammarInference.Learn.Merge
import GrammarInference.Learn.Query
import GrammarInference.Learn.Refine
import GrammarInference.Learn.Runs
import GrammarInference.Learn.Structure
import GrammarInference.Learn.Synthesis
import GrammarInference.Limits
import GrammarInference.Log
import GrammarInference.Main
import GrammarInference.Number.Binary
import GrammarInference.Number.Decimal
import GrammarInference.Number.Numeral
import GrammarInference.Oracle.Basic
import GrammarInference.Oracle.Length
import GrammarInference.Oracle.Session
import GrammarInference.Proofs.Acceptance
import GrammarInference.Proofs.Admission
import GrammarInference.Proofs.Answers
import GrammarInference.Proofs.Arguments
import GrammarInference.Proofs.Batches
import GrammarInference.Proofs.Bookkeeping
import GrammarInference.Proofs.Breakdowns
import GrammarInference.Proofs.CheckSelection
import GrammarInference.Proofs.Circles
import GrammarInference.Proofs.ClassLanguage
import GrammarInference.Proofs.ClassUnions
import GrammarInference.Proofs.CommandAnswers
import GrammarInference.Proofs.Compaction
import GrammarInference.Proofs.Consistency
import GrammarInference.Proofs.Copies
import GrammarInference.Proofs.Coverage
import GrammarInference.Proofs.DefaultDerivations
import GrammarInference.Proofs.Depth
import GrammarInference.Proofs.DepthGuard
import GrammarInference.Proofs.Draws
import GrammarInference.Proofs.Endings
import GrammarInference.Proofs.ExactClasses
import GrammarInference.Proofs.Expansions
import GrammarInference.Proofs.Failures
import GrammarInference.Proofs.Finalization
import GrammarInference.Proofs.Finishing
import GrammarInference.Proofs.Folding
import GrammarInference.Proofs.Generalizing
import GrammarInference.Proofs.Growth
import GrammarInference.Proofs.Independence
import GrammarInference.Proofs.JsonReading
import GrammarInference.Proofs.Language
import GrammarInference.Proofs.Layers
import GrammarInference.Proofs.LearnedShape
import GrammarInference.Proofs.Learning
import GrammarInference.Proofs.LoadedGrammars
import GrammarInference.Proofs.MaximalRuns
import GrammarInference.Proofs.MergeCoverage
import GrammarInference.Proofs.MergeRuns
import GrammarInference.Proofs.MergeShape
import GrammarInference.Proofs.Merging
import GrammarInference.Proofs.Mutations
import GrammarInference.Proofs.Nesting
import GrammarInference.Proofs.Normalization
import GrammarInference.Proofs.OracleFaults
import GrammarInference.Proofs.Outcome
import GrammarInference.Proofs.Outcomes
import GrammarInference.Proofs.Shortages
import GrammarInference.Proofs.Positions
import GrammarInference.Proofs.PrintedClasses
import GrammarInference.Proofs.Refining
import GrammarInference.Proofs.Refusals
import GrammarInference.Proofs.RepeatCounts
import GrammarInference.Proofs.Restructuring
import GrammarInference.Proofs.Rounding
import GrammarInference.Proofs.SafeMerging
import GrammarInference.Proofs.Safety
import GrammarInference.Proofs.SameRules
import GrammarInference.Proofs.Sampling
import GrammarInference.Proofs.SavedGrammars
import GrammarInference.Proofs.SeedCoverage
import GrammarInference.Proofs.Shape
import GrammarInference.Proofs.Soundness
import GrammarInference.Proofs.Tables
import GrammarInference.Proofs.Texts
import GrammarInference.Proofs.TextsPut
import GrammarInference.Proofs.Validity
import GrammarInference.Sample.Derivation
import GrammarInference.Sample.Draw
import GrammarInference.Sample.Parameters
import GrammarInference.Sample.Sampler
import GrammarInference.Sample.Twister
import GrammarInference.Text.Basic
import GrammarInference.Text.Blank
import GrammarInference.Text.Digit
import GrammarInference.Text.Hex
import GrammarInference.Text.Printable
import GrammarInference.Text.Quoted
import GrammarInference.Tool.Basic
import GrammarInference.Tool.Catalog
import GrammarInference.Tool.Condition
import GrammarInference.Tool.Echo
import GrammarInference.Tool.Grep
import GrammarInference.Tool.Launcher
import GrammarInference.Tool.Regex.Basic
import GrammarInference.Tool.Regex.Reader
import GrammarInference.Tool.Shell.Arithmetic
import GrammarInference.Tool.Shell.Format
import GrammarInference.Tool.Shell.Pattern
import GrammarInference.Tool.Shell.Reader
import GrammarInference.Tool.Shell.Run
import GrammarInference.Tool.Shell.Script
import GrammarInference.Tool.Shell.State
import GrammarInference.Workspace
