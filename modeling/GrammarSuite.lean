import GrammarSuite.Json.Reader
import GrammarSuite.Json.Writer
import GrammarSuite.Random.Script
import GrammarSuite.Random.Twister
import GrammarSuite.Grammar.Builtin
import GrammarSuite.Grammar.Load
import GrammarSuite.Case.Session
import GrammarSuite.Metrics.Stopwatch
import GrammarSuite.Report.Export
import GrammarSuite.Run.Suite
import GrammarSuite.Run.Single
import GrammarSuite.Display.Panels
import GrammarSuite.Log.Output
import GrammarSuite.Settings.Request
import GrammarSuite.CommandLine.Program
import GrammarSuite.Instant.Iso
import GrammarSuite.Main
import GrammarSuite.Proofs.Grammar.Rewriting
import GrammarSuite.Proofs.Derivation.Engine
import GrammarSuite.Proofs.Derivation.Completeness
import GrammarSuite.Proofs.Text.Words
import GrammarSuite.Proofs.Grammar.Format
import GrammarSuite.Proofs.Grammar.Reading
import GrammarSuite.Proofs.Mutation.Edits
import GrammarSuite.Proofs.Grammar.Arithmetic
import GrammarSuite.Proofs.Mutation.Invalid
import GrammarSuite.Proofs.Text.Lines
import GrammarSuite.Proofs.Grammar.Written
import GrammarSuite.Proofs.Grammar.Tokens
import GrammarSuite.Proofs.Action
import GrammarSuite.Proofs.Derivation.Attempts
import GrammarSuite.Proofs.Derivation.Evaluation
import GrammarSuite.Proofs.Derivation.Minimal
import GrammarSuite.Proofs.Mutation.Collection
import GrammarSuite.Proofs.Extreme.Search
import GrammarSuite.Proofs.Case.Labelling
import GrammarSuite.Proofs.Decimal.Nearest
import GrammarSuite.Proofs.Decimal.Shortest
import GrammarSuite.Proofs.Decimal.Patterns
import GrammarSuite.Proofs.Metrics.Counts
import GrammarSuite.Proofs.Run.Results
import GrammarSuite.Proofs.Run.Sections
import GrammarSuite.Proofs.Run.Shape
import GrammarSuite.Proofs.Run.Agreement
import GrammarSuite.Proofs.Run.Growth
import GrammarSuite.Proofs.Derivation.Runs
import GrammarSuite.Proofs.Derivation.History
import GrammarSuite.Proofs.Case.Numbering
import GrammarSuite.Proofs.Grammar.Growth
import GrammarSuite.Proofs.Metrics.Entries
import GrammarSuite.Proofs.Metrics.Account
import GrammarSuite.Proofs.Derivation.Shortest
import GrammarSuite.Proofs.Derivation.Pressure
import GrammarSuite.Proofs.Mutation.Exact
import GrammarSuite.Proofs.Extreme.Best
import GrammarSuite.Proofs.Extreme.Collection
import GrammarSuite.Proofs.Extreme.Measures
import GrammarSuite.Proofs.Extreme.Longest
import GrammarSuite.Proofs.Extreme.Depths
import GrammarSuite.Proofs.CommandLine.Actions
import GrammarSuite.Proofs.CommandLine.Options
import GrammarSuite.Proofs.CommandLine.Settings
import GrammarSuite.Proofs.CommandLine.Failures
import GrammarSuite.Proofs.Derivation.Conservation
import GrammarSuite.Proofs.Derivation.Parentheses
import GrammarSuite.Proofs.Grammar.Tables
import GrammarSuite.Proofs.Grammar.Joined
import GrammarSuite.Proofs.Random.Faults
import GrammarSuite.Proofs.Decimal.Overflow
import GrammarSuite.Proofs.Metrics.Combined
import GrammarSuite.Proofs.Settings.Reloaded
import GrammarSuite.Proofs.Settings.Rejected
import GrammarSuite.Proofs.Token
import GrammarSuite.Proofs.Text.Feeds
import GrammarSuite.Proofs.Report.Markdown
import GrammarSuite.Proofs.Report.Saved
import GrammarSuite.Proofs.Sorting
import GrammarSuite.Proofs.Decimal.Zero
import GrammarSuite.Proofs.Report.Ranked
import GrammarSuite.Proofs.Report.Sections
import GrammarSuite.Proofs.Report.Text
