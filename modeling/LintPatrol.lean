import LintPatrol.Chain.Inbox
import LintPatrol.Chain.Report
import LintPatrol.Chain.Stage
import LintPatrol.Chain.Station
import LintPatrol.Chain.System
import LintPatrol.Checkout.Component
import LintPatrol.Checkout.Findings
import LintPatrol.Checkout.Tree
import LintPatrol.Checkout.Write
import LintPatrol.Cli.Command
import LintPatrol.Cli.Grammar
import LintPatrol.Cli.Report
import LintPatrol.Cli.Run
import LintPatrol.Codec.Finding
import LintPatrol.Codec.Registry
import LintPatrol.Codec.Task
import LintPatrol.Config.Basic
import LintPatrol.Config.MemorySize
import LintPatrol.Config.Record
import LintPatrol.Config.Text
import LintPatrol.Database.Basic
import LintPatrol.Database.Cell
import LintPatrol.Database.File
import LintPatrol.Database.Operations
import LintPatrol.Database.Row
import LintPatrol.Failure
import LintPatrol.Git.Command
import LintPatrol.Git.Error
import LintPatrol.Git.Scripted
import LintPatrol.Git.Source
import LintPatrol.Highlight.Annotation
import LintPatrol.Highlight.Basic
import LintPatrol.Highlight.Excerpt
import LintPatrol.Json.Lenient
import LintPatrol.Json.Reader
import LintPatrol.Json.Record
import LintPatrol.Json.Value
import LintPatrol.Json.Writer
import LintPatrol.Lint.Outcome
import LintPatrol.Lint.Run
import LintPatrol.Main
import LintPatrol.Number.Binary64
import LintPatrol.Number.Integer
import LintPatrol.Number.Shortest
import LintPatrol.Registry.Linter
import LintPatrol.Registry.Repo
import LintPatrol.Rehearsal.Record
import LintPatrol.Rehearsal.Script
import LintPatrol.Role.Scheduler
import LintPatrol.Role.Step
import LintPatrol.Role.Worker
import LintPatrol.Role.World
import LintPatrol.Sandbox.Error
import LintPatrol.Sandbox.Reply
import LintPatrol.Sandbox.Request
import LintPatrol.Sandbox.Run
import LintPatrol.Sandbox.Scripted
import LintPatrol.Sandbox.Session
import LintPatrol.Scope.Basic
import LintPatrol.Scope.Wait
import LintPatrol.Store.Basic
import LintPatrol.Store.Error
import LintPatrol.Store.Moderation
import LintPatrol.Store.Queue
import LintPatrol.Store.Rows
import LintPatrol.Stream.Attach
import LintPatrol.Stream.Buffered
import LintPatrol.Stream.Frame
import LintPatrol.Stream.Lines
import LintPatrol.Stream.Transport
import LintPatrol.Task.Basic
import LintPatrol.Task.Moderation
import LintPatrol.Text.Blank
import LintPatrol.Text.Split
import LintPatrol.Text.Utf8
import LintPatrol.Time.Calendar
import LintPatrol.Time.Duration
import LintPatrol.Time.Instant
import LintPatrol.Toml.Reader
import LintPatrol.Toml.Scalar
import LintPatrol.Toml.Value
import LintPatrol.Toml.Writer
import LintPatrol.Proofs.Stream.Framing
import LintPatrol.Proofs.Stream.Attach
import LintPatrol.Proofs.Stream.Decoding
import LintPatrol.Proofs.Store.History
import LintPatrol.Proofs.Store.Lease
import LintPatrol.Proofs.Store.Finality
import LintPatrol.Proofs.Chain.Step
import LintPatrol.Proofs.Chain.Work
import LintPatrol.Proofs.Chain.Batch
import LintPatrol.Proofs.Chain.Accounting
import LintPatrol.Proofs.Chain.Kept
import LintPatrol.Proofs.Chain.Order
import LintPatrol.Proofs.Chain.Progress
import LintPatrol.Proofs.Chain.Completion
import LintPatrol.Proofs.Database.Undamaged
import LintPatrol.Proofs.Store.Enqueue
import LintPatrol.Proofs.Store.Table
import LintPatrol.Proofs.Store.Registry
import LintPatrol.Proofs.Store.Places
import LintPatrol.Proofs.Store.Order
import LintPatrol.Proofs.Role.Refresh
import LintPatrol.Proofs.Role.Timely
import LintPatrol.Proofs.Role.Alone
import LintPatrol.Proofs.Role.Asking
import LintPatrol.Proofs.Config.Limits
import LintPatrol.Proofs.Config.MemorySize
import LintPatrol.Proofs.Role.Iteration
import LintPatrol.Proofs.Role.Pass
import LintPatrol.Proofs.Toml.Number
import LintPatrol.Proofs.Time.Shift
import LintPatrol.Proofs.Text.Blank
import LintPatrol.Proofs.Text.Split
import LintPatrol.Proofs.Number.Decimal
import LintPatrol.Proofs.Number.Rounding
import LintPatrol.Proofs.Number.Shortest
import LintPatrol.Proofs.Number.Word
import LintPatrol.Proofs.Highlight.Notice
import LintPatrol.Proofs.Store.Transaction
import LintPatrol.Proofs.Store.Drain
import LintPatrol.Proofs.Role.Crew
import LintPatrol.Proofs.Role.Coverage
import LintPatrol.Proofs.Store.Provenance
import LintPatrol.Proofs.Store.Statistics
import LintPatrol.Proofs.Text.Utf8
import LintPatrol.Proofs.Stream.Lines
import LintPatrol.Proofs.Order.Sort
import LintPatrol.Proofs.Store.View
import LintPatrol.Proofs.Store.Readback
import LintPatrol.Proofs.Highlight.Excerpt
import LintPatrol.Proofs.Checkout.Path
import LintPatrol.Proofs.Checkout.Findings
import LintPatrol.Proofs.Checkout.Containment
import LintPatrol.Proofs.Checkout.Making
import LintPatrol.Proofs.Lint.Run
import LintPatrol.Proofs.Sandbox.Output
import LintPatrol.Proofs.Sandbox.Run
import LintPatrol.Proofs.Sandbox.Completion
import LintPatrol.Proofs.Sandbox.Flood
import LintPatrol.Proofs.Config.Quota
import LintPatrol.Proofs.Config.Startup
import LintPatrol.Proofs.Scope.Expiry
import LintPatrol.Proofs.Scope.Tree
import LintPatrol.Proofs.Chain.Scopes
import LintPatrol.Proofs.Chain.Blame
import LintPatrol.Proofs.Chain.Rhythm
import LintPatrol.Proofs.Chain.Pacing
import LintPatrol.Proofs.Chain.Closing
import LintPatrol.Proofs.Json.Record
import LintPatrol.Proofs.Toml.Quoting
import LintPatrol.Proofs.Toml.Document
import LintPatrol.Proofs.Checkout.Writing
import LintPatrol.Proofs.Config.Roundtrip
import LintPatrol.Proofs.Cli.Init
import LintPatrol.Proofs.Time.Calendar
import LintPatrol.Proofs.Time.Text
import LintPatrol.Proofs.Codec.Roundtrip
