import ReactiveScript.Audience
import ReactiveScript.Clock
import ReactiveScript.Component
import ReactiveScript.Digest
import ReactiveScript.Duration
import ReactiveScript.Evaluation
import ReactiveScript.Evaluation.Arguments
import ReactiveScript.Evaluation.Error
import ReactiveScript.Evaluation.Log
import ReactiveScript.Evaluation.Machine
import ReactiveScript.Evaluation.Operator
import ReactiveScript.Grammar.Expression
import ReactiveScript.Grammar.Interpolation
import ReactiveScript.Grammar.Statement
import ReactiveScript.Graph
import ReactiveScript.Graph.Body
import ReactiveScript.Graph.Execution
import ReactiveScript.Graph.Order
import ReactiveScript.Graph.Report
import ReactiveScript.Helper
import ReactiveScript.Identity
import ReactiveScript.Interpretation
import ReactiveScript.Json
import ReactiveScript.Json.Reader
import ReactiveScript.Json.Record
import ReactiveScript.Layout
import ReactiveScript.Memo
import ReactiveScript.Message
import ReactiveScript.MessagePack
import ReactiveScript.Number.Binary
import ReactiveScript.Number.Fixed
import ReactiveScript.Number.Power
import ReactiveScript.Number.Reading
import ReactiveScript.Number.Shortest
import ReactiveScript.OutputUnit
import ReactiveScript.Program
import ReactiveScript.Program.Cycle
import ReactiveScript.Program.Printer
import ReactiveScript.Program.Split
import ReactiveScript.Proofs.Graph.Affected
import ReactiveScript.Proofs.Graph.Agreement
import ReactiveScript.Proofs.Graph.GlitchFree
import ReactiveScript.Proofs.Graph.Listing
import ReactiveScript.Proofs.Graph.NodeSet
import ReactiveScript.Proofs.Graph.Registration
import ReactiveScript.Proofs.Graph.Selective
import ReactiveScript.Proofs.Graph.Settled
import ReactiveScript.Proofs.Graph.Shape
import ReactiveScript.Proofs.Graph.Turn
import ReactiveScript.Proofs.Graph.Walk
import ReactiveScript.Proofs.Table
import ReactiveScript.Registry
import ReactiveScript.Session
import ReactiveScript.Session.Run
import ReactiveScript.Session.Worker
import ReactiveScript.Settings
import ReactiveScript.Span
import ReactiveScript.Table
import ReactiveScript.Text.Blank
import ReactiveScript.Text.Case
import ReactiveScript.Text.CaseTable
import ReactiveScript.Text.Copies
import ReactiveScript.Text.Quoted
import ReactiveScript.Text.Ranges
import ReactiveScript.Text.Visible
import ReactiveScript.Token
import ReactiveScript.Token.Layout
import ReactiveScript.Token.Scan
import ReactiveScript.Tree
import ReactiveScript.Tree.Names
import ReactiveScript.Tree.Printer
import ReactiveScript.Value
import ReactiveScript.View
import ReactiveScript.Proofs.Checked
import ReactiveScript.Proofs.Evaluation.Coupling
import ReactiveScript.Proofs.Evaluation.Expression
import ReactiveScript.Proofs.Evaluation.Function
import ReactiveScript.Proofs.Evaluation.Invariant
import ReactiveScript.Proofs.Grammar.Expression
import ReactiveScript.Proofs.Identity
import ReactiveScript.Proofs.Program.Account
import ReactiveScript.Proofs.Program.Installed
import ReactiveScript.Proofs.Program.Interpretation
import ReactiveScript.Proofs.Session.Display
import ReactiveScript.Proofs.Session.Load
import ReactiveScript.Proofs.Grammar.Statement
import ReactiveScript.Proofs.Program.Reads
import ReactiveScript.Proofs.Audience
import ReactiveScript.Proofs.Memo
import ReactiveScript.Proofs.Session.Observers
import ReactiveScript.Proofs.Graph.Producers
import ReactiveScript.Proofs.Session.Reruns
import ReactiveScript.Session.Command
import ReactiveScript.Proofs.Session.Worker
import ReactiveScript.Proofs.Session.Lifecycle
import ReactiveScript.Proofs.Graph.Blocked
import ReactiveScript.Proofs.Session.Inputs
import ReactiveScript.Proofs.Session.Coalescing
import ReactiveScript.Proofs.Graph.Reads
import ReactiveScript.Proofs.Program.Accepted
import ReactiveScript.Proofs.Evaluation.Companion
import ReactiveScript.Proofs.Evaluation.Emissions
import ReactiveScript.Proofs.Site
import ReactiveScript.Proofs.Program.Emissions
import ReactiveScript.Proofs.Graph.Latest
import ReactiveScript.Proofs.Session.Chronicle
import ReactiveScript.Proofs.Session.Emissions
import ReactiveScript.Proofs.Session.Validity
import ReactiveScript.Proofs.Graph.Pauses
import ReactiveScript.Proofs.Session.Deliveries
import ReactiveScript.Proofs.Session.Messages
import ReactiveScript.Proofs.Json
import ReactiveScript.Proofs.Session.Changes
import ReactiveScript.Proofs.Evaluation.Stepwise
import ReactiveScript.Proofs.Evaluation.Termination
import ReactiveScript.Proofs.Graph.Linear
import ReactiveScript.Proofs.Graph.Selection
import ReactiveScript.Proofs.Graph.Untouched
import ReactiveScript.Proofs.Program.Hygiene
import ReactiveScript.Proofs.Graph.Closure
import ReactiveScript.Proofs.Graph.Refusal
import ReactiveScript.Proofs.Layout.Greedy
import ReactiveScript.Proofs.Text.Brackets
import ReactiveScript.Proofs.Token.Lexeme
import ReactiveScript.Proofs.Token.Line
import ReactiveScript.Proofs.Grammar.Reading
import ReactiveScript.Proofs.Grammar.Interpolation
import ReactiveScript.Proofs.Token.Indentation
import ReactiveScript.Proofs.Grammar.Completeness
import ReactiveScript.Proofs.Evaluation.Renaming
import ReactiveScript.Proofs.Grammar.Excerpt
import ReactiveScript.Proofs.Sorting
import ReactiveScript.Proofs.Value.Normal
import ReactiveScript.Proofs.Program.Widths
import ReactiveScript.Proofs.Session.Record
import ReactiveScript.Proofs.Graph.Levels
import ReactiveScript.Proofs.Program.Search
import ReactiveScript.Proofs.Program.SourceOrder
import ReactiveScript.Proofs.Evaluation.Trace
import ReactiveScript.Proofs.Grammar.Roundtrip
