import DeltaView.Change
import DeltaView.Command.Arguments
import DeltaView.Command.Help
import DeltaView.Command.Outcome
import DeltaView.Command.Report
import DeltaView.Command.Scenario
import DeltaView.Dataflow.Graph
import DeltaView.Dataflow.Operator
import DeltaView.Delta
import DeltaView.Distinct
import DeltaView.Error
import DeltaView.Expr.Basic
import DeltaView.Expr.Eval
import DeltaView.Expr.Function
import DeltaView.Expr.Text
import DeltaView.Group.Aggregate
import DeltaView.Group.Operator
import DeltaView.Grouping
import DeltaView.Hash
import DeltaView.Insertion
import DeltaView.Join.Condition
import DeltaView.Join.Index
import DeltaView.Join.Operator
import DeltaView.Join.Pair
import DeltaView.Json.Basic
import DeltaView.Json.Draft
import DeltaView.Json.Reader
import DeltaView.Json.Writer
import DeltaView.Main
import DeltaView.Number.Decimal
import DeltaView.Number.Double
import DeltaView.Number.Numeral
import DeltaView.OrderKey
import DeltaView.Plan.Basic
import DeltaView.Plan.OfQuery
import DeltaView.Plan.Wiring
import DeltaView.Proofs.Dataflow.Build
import DeltaView.Proofs.Dataflow.Ends
import DeltaView.Proofs.Dataflow.Failure
import DeltaView.Proofs.Dataflow.Identity
import DeltaView.Proofs.Dataflow.Inlets
import DeltaView.Proofs.Dataflow.Ledger
import DeltaView.Proofs.Dataflow.Lifetime
import DeltaView.Proofs.Dataflow.Operator
import DeltaView.Proofs.Dataflow.Order
import DeltaView.Proofs.Dataflow.Pass
import DeltaView.Proofs.Dataflow.Ready
import DeltaView.Proofs.Dataflow.Run
import DeltaView.Proofs.Dataflow.Send
import DeltaView.Proofs.Dataflow.Trace
import DeltaView.Proofs.Dataflow.Turn
import DeltaView.Proofs.Dataflow.Wired
import DeltaView.Proofs.Dataflow.Yields
import DeltaView.Proofs.Delta.Canonical
import DeltaView.Proofs.Delta.Consolidate
import DeltaView.Proofs.Delta.Exact
import DeltaView.Proofs.Delta.Identified
import DeltaView.Proofs.Delta.Machine
import DeltaView.Proofs.Delta.Slots
import DeltaView.Proofs.Delta.Total
import DeltaView.Proofs.Distinct
import DeltaView.Proofs.Except
import DeltaView.Proofs.Expr.Arrangement
import DeltaView.Proofs.Expr.Conjunct
import DeltaView.Proofs.Expr.Text
import DeltaView.Proofs.Group.Extreme
import DeltaView.Proofs.Group.Members
import DeltaView.Proofs.Group.Numbers
import DeltaView.Proofs.Group.Operator
import DeltaView.Proofs.Group.Run
import DeltaView.Proofs.Group.Sum
import DeltaView.Proofs.Grouping
import DeltaView.Proofs.Join.Build
import DeltaView.Proofs.Join.Condition
import DeltaView.Proofs.Join.Filter
import DeltaView.Proofs.Join.Index
import DeltaView.Proofs.Join.Orientation
import DeltaView.Proofs.Join.Process
import DeltaView.Proofs.Join.Run
import DeltaView.Proofs.Join.Table
import DeltaView.Proofs.Json.Basic
import DeltaView.Proofs.Json.Lexer
import DeltaView.Proofs.Json.Reader
import DeltaView.Proofs.Number.Numeral
import DeltaView.Proofs.Number.Rounding
import DeltaView.Proofs.Number.Zero
import DeltaView.Proofs.OrderKey.Between
import DeltaView.Proofs.OrderKey.Fraction
import DeltaView.Proofs.OrderKey.Reuse
import DeltaView.Proofs.OrderKey.Several
import DeltaView.Proofs.OrderKey.Validation
import DeltaView.Proofs.OrderKey.Whole
import DeltaView.Proofs.Plan.AfterSelect
import DeltaView.Proofs.Plan.Circuit
import DeltaView.Proofs.Plan.Emission
import DeltaView.Proofs.Plan.Grouped
import DeltaView.Proofs.Plan.JoinKeys
import DeltaView.Proofs.Plan.Keys
import DeltaView.Proofs.Plan.Level
import DeltaView.Proofs.Plan.Nullable
import DeltaView.Proofs.Plan.OfQuery
import DeltaView.Proofs.Plan.Rows
import DeltaView.Proofs.Plan.Skeleton
import DeltaView.Proofs.Plan.Wiring
import DeltaView.Proofs.Plan.Within
import DeltaView.Proofs.Query.Accounting
import DeltaView.Proofs.Query.Collapse
import DeltaView.Proofs.Query.Convergence
import DeltaView.Proofs.Query.Idempotence
import DeltaView.Proofs.Query.Loading
import DeltaView.Proofs.Query.Optimizable
import DeltaView.Proofs.Query.Optimize
import DeltaView.Proofs.Query.Pushable
import DeltaView.Proofs.Query.Pushdown
import DeltaView.Proofs.Query.Reading
import DeltaView.Proofs.Query.Residual
import DeltaView.Proofs.Query.Revision
import DeltaView.Proofs.Query.Sources
import DeltaView.Proofs.Query.TakeIn
import DeltaView.Proofs.Query.Tested
import DeltaView.Proofs.Query.Text
import DeltaView.Proofs.Table
import DeltaView.Proofs.Text.AnyCase
import DeltaView.Proofs.Text.Case
import DeltaView.Proofs.Text.Wildcard
import DeltaView.Proofs.Value.Fields
import DeltaView.Proofs.Value.Lookup
import DeltaView.Proofs.Value.Sort
import DeltaView.Proofs.Value.Text
import DeltaView.Proofs.Value.TotalOrder
import DeltaView.Proofs.View.Difference
import DeltaView.Proofs.View.Failure
import DeltaView.Proofs.View.Feed
import DeltaView.Proofs.View.History
import DeltaView.Proofs.View.Identity
import DeltaView.Proofs.View.Loaded
import DeltaView.Proofs.View.Mirror
import DeltaView.Proofs.View.NetChange
import DeltaView.Proofs.View.Operation
import DeltaView.Proofs.View.Optimized
import DeltaView.Proofs.View.Refusal
import DeltaView.Proofs.View.Replay
import DeltaView.Proofs.View.Subscription
import DeltaView.Proofs.View.TakenIn
import DeltaView.Proofs.Window.Entries
import DeltaView.Proofs.Window.Indexes
import DeltaView.Proofs.Window.Order
import DeltaView.Proofs.Window.Report
import DeltaView.Proofs.Window.Run
import DeltaView.Proofs.Window.Search
import DeltaView.Proofs.Window.Step
import DeltaView.Proofs.Window.Visible
import DeltaView.Query.Basic
import DeltaView.Query.Build
import DeltaView.Query.Collapse
import DeltaView.Query.Conjunct
import DeltaView.Query.Optimize
import DeltaView.Query.Pushdown
import DeltaView.Query.Selected
import DeltaView.Query.Text
import DeltaView.Row
import DeltaView.Table
import DeltaView.Text.Case
import DeltaView.Text.CaseTable
import DeltaView.Text.EmojiTable
import DeltaView.Text.Ligature
import DeltaView.Text.Range
import DeltaView.Text.Table
import DeltaView.Text.Width
import DeltaView.Text.WidthTable
import DeltaView.Text.Wildcard
import DeltaView.Value.Basic
import DeltaView.Value.Order
import DeltaView.Value.Sort
import DeltaView.Value.Text
import DeltaView.View.Hub
import DeltaView.View.Live
import DeltaView.View.Rows
import DeltaView.Window.Operator
import DeltaView.Window.Range
import DeltaView.Window.Ranking
