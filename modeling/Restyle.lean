import Restyle.Activity
import Restyle.Checkpoint
import Restyle.Clock
import Restyle.CommandLine.Arguments
import Restyle.CommandLine.Footprint
import Restyle.CommandLine.Invocation
import Restyle.CommandLine.Run
import Restyle.Consent
import Restyle.Digest.Sha256
import Restyle.Display
import Restyle.Edit
import Restyle.Failure
import Restyle.Fault
import Restyle.FixAction
import Restyle.Json.Arithmetic
import Restyle.Json.Basic
import Restyle.Json.Coercion
import Restyle.Json.Printer
import Restyle.Json.Reader
import Restyle.Json.Table
import Restyle.Main
import Restyle.Migration
import Restyle.Number.Binary64
import Restyle.Number.Decimal
import Restyle.Number.Reading
import Restyle.Path
import Restyle.Plan.Basic
import Restyle.Plan.Builder
import Restyle.Plan.Filters
import Restyle.Plan.Store
import Restyle.Promotion
import Restyle.Proofs.Activity.Acceptance
import Restyle.Proofs.Activity.Atomicity
import Restyle.Proofs.Activity.Failing
import Restyle.Proofs.Activity.Likeness
import Restyle.Proofs.Activity.Maintenance
import Restyle.Proofs.Activity.Outcome
import Restyle.Proofs.Activity.Writing
import Restyle.Proofs.Checkpoint.Loading
import Restyle.Proofs.Computation
import Restyle.Proofs.Edit.Columns
import Restyle.Proofs.Edit.Exactness
import Restyle.Proofs.Edit.Independence
import Restyle.Proofs.Edit.Lines
import Restyle.Proofs.Edit.Occurrences
import Restyle.Proofs.Edit.Sizes
import Restyle.Proofs.Json.Compact
import Restyle.Proofs.Json.Documents
import Restyle.Proofs.Json.Faults
import Restyle.Proofs.Json.Forms
import Restyle.Proofs.Json.Keys
import Restyle.Proofs.Json.Numerals
import Restyle.Proofs.Json.Reals
import Restyle.Proofs.Json.Tables
import Restyle.Proofs.Json.Texts
import Restyle.Proofs.Migration.Answers
import Restyle.Proofs.Migration.Arrivals
import Restyle.Proofs.Migration.Backups
import Restyle.Proofs.Migration.Balance
import Restyle.Proofs.Migration.Chronicles
import Restyle.Proofs.Migration.Commit
import Restyle.Proofs.Migration.Courses
import Restyle.Proofs.Migration.Dependents
import Restyle.Proofs.Migration.Endings
import Restyle.Proofs.Migration.Errands
import Restyle.Proofs.Migration.Execution
import Restyle.Proofs.Migration.FailedRuns
import Restyle.Proofs.Migration.Frames
import Restyle.Proofs.Migration.Handling
import Restyle.Proofs.Migration.Histories
import Restyle.Proofs.Migration.Insertions
import Restyle.Proofs.Migration.Interruption
import Restyle.Proofs.Migration.Likeness
import Restyle.Proofs.Migration.Lists
import Restyle.Proofs.Migration.Loading
import Restyle.Proofs.Migration.Preparation
import Restyle.Proofs.Migration.Presence
import Restyle.Proofs.Migration.Previews
import Restyle.Proofs.Migration.Progress
import Restyle.Proofs.Migration.Questions
import Restyle.Proofs.Migration.Records
import Restyle.Proofs.Migration.Reports
import Restyle.Proofs.Migration.ResumeChain
import Restyle.Proofs.Migration.Running
import Restyle.Proofs.Migration.SequentialEdits
import Restyle.Proofs.Migration.Sizes
import Restyle.Proofs.Migration.Spellings
import Restyle.Proofs.Migration.Stylesheet
import Restyle.Proofs.Migration.Tallies
import Restyle.Proofs.Migration.Tracking
import Restyle.Proofs.Migration.UntouchedLines
import Restyle.Proofs.Migration.Upkeep
import Restyle.Proofs.Migration.Verdicts
import Restyle.Proofs.Migration.Verification
import Restyle.Proofs.Migration.Views
import Restyle.Proofs.Number.Comparison
import Restyle.Proofs.Number.Decimals
import Restyle.Proofs.Number.Overflow
import Restyle.Proofs.Number.Rounding
import Restyle.Proofs.Number.Scripts
import Restyle.Proofs.Pattern.Classes
import Restyle.Proofs.Plan.Accounting
import Restyle.Proofs.Plan.Building
import Restyle.Proofs.Plan.Choosing
import Restyle.Proofs.Plan.Definers
import Restyle.Proofs.Plan.Documents
import Restyle.Proofs.Plan.Grouping
import Restyle.Proofs.Plan.Linking
import Restyle.Proofs.Plan.Naming
import Restyle.Proofs.Plan.Nesting
import Restyle.Proofs.Plan.Refusing
import Restyle.Proofs.Plan.Resolutions
import Restyle.Proofs.Plan.Resolving
import Restyle.Proofs.Plan.Rewriting
import Restyle.Proofs.Schedule.Coverage
import Restyle.Proofs.Schedule.Cycles
import Restyle.Proofs.Schedule.Effort
import Restyle.Proofs.Schedule.Precedence
import Restyle.Proofs.Schedule.Recursion
import Restyle.Proofs.Schedule.Remaining
import Restyle.Proofs.Schedule.Resuming
import Restyle.Proofs.Schedule.Selection
import Restyle.Proofs.Schedule.Stability
import Restyle.Proofs.Schedule.Traces
import Restyle.Proofs.Schedule.Walks
import Restyle.Proofs.Stylesheet.Definitions
import Restyle.Proofs.Stylesheet.Growth
import Restyle.Proofs.Stylesheet.Promoting
import Restyle.Proofs.Stylesheet.Receiving
import Restyle.Proofs.Stylesheet.Sections
import Restyle.Proofs.Suggestion.Lengths
import Restyle.Proofs.Suggestion.Notes
import Restyle.Proofs.Suggestion.Recognising
import Restyle.Proofs.Suggestion.Scanning
import Restyle.Proofs.Suggestion.Slugs
import Restyle.Proofs.Text.Codes
import Restyle.Proofs.Text.Expressions
import Restyle.Proofs.Text.Feeds
import Restyle.Proofs.Text.Trimming
import Restyle.Proofs.Text.Utf8
import Restyle.Proofs.Violation.Documents
import Restyle.Proofs.Violation.Reading
import Restyle.Proofs.Workspace.Evolution
import Restyle.Proofs.Workspace.Kinds
import Restyle.Proofs.Workspace.Operations
import Restyle.Proposal
import Restyle.Ranking
import Restyle.Ranking.Merge
import Restyle.Ranking.Run
import Restyle.Ranking.Search
import Restyle.Report
import Restyle.Resolution
import Restyle.Schedule
import Restyle.Settings
import Restyle.Step
import Restyle.Strategy
import Restyle.Suggestion.Colours
import Restyle.Suggestion.Lengths
import Restyle.Suggestion.Names
import Restyle.Text.Classes
import Restyle.Text.Codes
import Restyle.Text.Markup
import Restyle.Text.Parts
import Restyle.Text.Printable
import Restyle.Text.Quoted
import Restyle.Text.Utf8
import Restyle.Text.Word
import Restyle.Toml.Basic
import Restyle.Toml.Moment
import Restyle.Toml.Reader
import Restyle.Violation
import Restyle.Violation.Source
import Restyle.Workspace
