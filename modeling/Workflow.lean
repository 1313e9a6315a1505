import Workflow.Account
import Workflow.Agent
import Workflow.Agent.Document
import Workflow.Artifact
import Workflow.Audit
import Workflow.Audit.Entry
import Workflow.Audit.Sink
import Workflow.Bits
import Workflow.Checkpoint
import Workflow.Checkpoint.Saved
import Workflow.Checkpoint.Store
import Workflow.Command
import Workflow.Command.Arguments
import Workflow.Command.Completions
import Workflow.Command.Execute
import Workflow.Command.Grammar
import Workflow.Command.Help
import Workflow.Command.Report
import Workflow.Condition.Access
import Workflow.Condition.Eval
import Workflow.Condition.Expr
import Workflow.Condition.Token
import Workflow.Context
import Workflow.Date
import Workflow.Decimal.Binary64
import Workflow.Decimal.Nearest
import Workflow.Decimal.Shortest
import Workflow.Definition
import Workflow.Definition.Document
import Workflow.Definition.Validate
import Workflow.Dispatch
import Workflow.DryRun
import Workflow.Files
import Workflow.Files.Path
import Workflow.Frontmatter
import Workflow.Instant
import Workflow.Json.Decode
import Workflow.Json.Members
import Workflow.Json.Number
import Workflow.Json.Path
import Workflow.Json.Printer
import Workflow.Json.Reader
import Workflow.Json.Value
import Workflow.Main
import Workflow.Process
import Workflow.Process.World
import Workflow.Program
import Workflow.Prompt.Compose
import Workflow.Prompt.Reserved
import Workflow.Prompt.Scope
import Workflow.Proofs.Account.Call
import Workflow.Proofs.Account.Escape
import Workflow.Proofs.Account.Marking
import Workflow.Proofs.Account.Pausing
import Workflow.Proofs.Account.Trail
import Workflow.Proofs.Artifact
import Workflow.Proofs.Checkpoint.Latest
import Workflow.Proofs.Checkpoint.Loading
import Workflow.Proofs.Checkpoint.Location
import Workflow.Proofs.Checkpoint.Naming
import Workflow.Proofs.Checkpoint.Normal
import Workflow.Proofs.Condition.Agreement
import Workflow.Proofs.Condition.Alike
import Workflow.Proofs.Condition.Chains
import Workflow.Proofs.Condition.Lookup
import Workflow.Proofs.Condition.Membership
import Workflow.Proofs.Condition.Missing
import Workflow.Proofs.Condition.Parts
import Workflow.Proofs.Condition.Path
import Workflow.Proofs.Condition.Presence
import Workflow.Proofs.Decimal.Zero
import Workflow.Proofs.Definition.Blame
import Workflow.Proofs.Definition.FaultPath
import Workflow.Proofs.Definition.Fields
import Workflow.Proofs.Definition.Phases
import Workflow.Proofs.Definition.RoundTrip
import Workflow.Proofs.Definition.Valid
import Workflow.Proofs.Except
import Workflow.Proofs.Files.Finding
import Workflow.Proofs.Files.Listing
import Workflow.Proofs.Files.Making
import Workflow.Proofs.Files.Place
import Workflow.Proofs.Forks
import Workflow.Proofs.Frontmatter
import Workflow.Proofs.Json.Alike
import Workflow.Proofs.Json.Members
import Workflow.Proofs.Json.Normalize
import Workflow.Proofs.Json.NumberText
import Workflow.Proofs.Json.Record
import Workflow.Proofs.Process.Arrivals
import Workflow.Proofs.Process.Beside
import Workflow.Proofs.Process.Discipline
import Workflow.Proofs.Process.Interleaving
import Workflow.Proofs.Process.Invariant
import Workflow.Proofs.Process.Leads
import Workflow.Proofs.Process.Path
import Workflow.Proofs.Process.Patient
import Workflow.Proofs.Process.Recording
import Workflow.Proofs.Process.Similar
import Workflow.Proofs.Prompt.Input
import Workflow.Proofs.Prompt.Readable
import Workflow.Proofs.Prompt.Rendering
import Workflow.Proofs.Prompt.Shadowing
import Workflow.Proofs.Run.Aggregate
import Workflow.Proofs.Run.Chain
import Workflow.Proofs.Run.Deeds
import Workflow.Proofs.Run.Disable
import Workflow.Proofs.Run.DryRun
import Workflow.Proofs.Run.Failures
import Workflow.Proofs.Run.Fatal
import Workflow.Proofs.Run.Fates
import Workflow.Proofs.Run.GroupPause
import Workflow.Proofs.Run.Launch
import Workflow.Proofs.Run.Pause
import Workflow.Proofs.Run.PausedTask
import Workflow.Proofs.Run.Position
import Workflow.Proofs.Run.Progress
import Workflow.Proofs.Run.Rest
import Workflow.Proofs.Run.StoredOutput
import Workflow.Proofs.Run.Streams
import Workflow.Proofs.Run.TasksAtHand
import Workflow.Proofs.Run.WellFormed
import Workflow.Proofs.Step.Answered
import Workflow.Proofs.Step.Asking
import Workflow.Proofs.Step.ChangedFiles
import Workflow.Proofs.Step.Disable
import Workflow.Proofs.Step.DryRun
import Workflow.Proofs.Step.Growth
import Workflow.Proofs.Step.Inside
import Workflow.Proofs.Step.Iteration
import Workflow.Proofs.Step.Leaf
import Workflow.Proofs.Step.Order
import Workflow.Proofs.Step.Owner
import Workflow.Proofs.Step.Passage
import Workflow.Proofs.Step.Rounds
import Workflow.Proofs.Step.Turn
import Workflow.Proofs.Text.Lines
import Workflow.Proofs.Text.Occurrence
import Workflow.Proofs.Text.Split
import Workflow.Proofs.Uuid
import Workflow.Rehearsal
import Workflow.Rehearsal.Script
import Workflow.Run
import Workflow.Run.Error
import Workflow.Run.Result
import Workflow.Settings
import Workflow.Step
import Workflow.Step.Behaviour
import Workflow.Step.Error
import Workflow.Template
import Workflow.Text.Blank
import Workflow.Text.Combining
import Workflow.Text.Digits
import Workflow.Text.Hidden
import Workflow.Text.NameSet
import Workflow.Text.Quoted
import Workflow.Text.Range
import Workflow.Text.Split
import Workflow.Text.Table
import Workflow.Text.Width
import Workflow.Toml.Document
import Workflow.Toml.Reader
import Workflow.Toml.Scalar
import Workflow.Toml.Table
import Workflow.Toml.Value
import Workflow.Uuid
import Workflow.Yaml.Node
import Workflow.Yaml.Node.Document
import Workflow.Yaml.Schema
import Workflow.Yaml.Source
import Workflow.Yaml.Token
import Workflow.Yaml.Token.Property
import Workflow.Yaml.Token.Scalar
import Workflow.Yaml.Token.Stream
import Workflow.Yaml.Value
import Workflow.Yaml.Writer
