import L4Book.AbstractBook
import L4Book.Book
import L4Book.Capture
import L4Book.CaptureScript
import L4Book.DebugLog
import L4Book.Dwellir
import L4Book.Foundation.ArenaIndex
import L4Book.Foundation.Blame
import L4Book.Foundation.Chain
import L4Book.Foundation.CheapestFirst
import L4Book.Foundation.Decimal
import L4Book.Foundation.Entrywise
import L4Book.Foundation.Fallible
import L4Book.Foundation.Greedy
import L4Book.Foundation.KeyedQueues
import L4Book.Foundation.Noninterference
import L4Book.Foundation.Reordering
import L4Book.Foundation.Restriction
import L4Book.Foundation.ShortestNumeral
import L4Book.Foundation.StockAccount
import L4Book.Foundation.Text
import L4Book.Ladder
import L4Book.Level
import L4Book.LevelLayout
import L4Book.ListSurgery
import L4Book.LiveClient
import L4Book.Machine
import L4Book.Matching
import L4Book.Operations
import L4Book.Query
import L4Book.Refinement.Accounting
import L4Book.Refinement.Add
import L4Book.Refinement.DebugLog
import L4Book.Refinement.Dedupe
import L4Book.Refinement.Depth
import L4Book.Refinement.Export
import L4Book.Refinement.Feed
import L4Book.Refinement.FixedPoint
import L4Book.Refinement.Ledger
import L4Book.Refinement.LiveClient
import L4Book.Refinement.Match
import L4Book.Refinement.Namespaces
import L4Book.Refinement.Queries
import L4Book.Refinement.Reading
import L4Book.Refinement.Refusal
import L4Book.Refinement.Remove
import L4Book.Refinement.Replay
import L4Book.Refinement.Resize
import L4Book.Refinement.Run
import L4Book.Refinement.ScaledText
import L4Book.Refinement.Session
import L4Book.Refinement.Slab
import L4Book.Refinement.Slippage
import L4Book.Refinement.Snapshot
import L4Book.Refinement.Statistics
import L4Book.Refinement.Submit
import L4Book.Refinement.Take
import L4Book.Refinement.Walk
import L4Book.Refinement.WalletHex
import L4Book.Refinement.WireMessages
import L4Book.Replay
import L4Book.ReplayReport
import L4Book.Reporting
import L4Book.Representation
import L4Book.Results.Accounting
import L4Book.Results.BestExecution
import L4Book.Results.Captures
import L4Book.Results.Clients
import L4Book.Results.Commuting
import L4Book.Results.DebugBooks
import L4Book.Results.DebugCounts
import L4Book.Results.Dedupe
import L4Book.Results.Exports
import L4Book.Results.Failures
import L4Book.Results.Faults
import L4Book.Results.Feed
import L4Book.Results.FixedPoint
import L4Book.Results.Invariant
import L4Book.Results.Ledger
import L4Book.Results.LiveReports
import L4Book.Results.Loading
import L4Book.Results.Matching
import L4Book.Results.Namespaces
import L4Book.Results.Notionals
import L4Book.Results.Policies
import L4Book.Results.Priority
import L4Book.Results.QueuePosition
import L4Book.Results.Rebuilding
import L4Book.Results.RecordedSessions
import L4Book.Results.Recording
import L4Book.Results.Replacing
import L4Book.Results.ReplayPolicies
import L4Book.Results.ReplayReports
import L4Book.Results.Reuse
import L4Book.Results.ScaledText
import L4Book.Results.Sessions
import L4Book.Results.Simulation
import L4Book.Results.Slippage
import L4Book.Results.Snapshots
import L4Book.Results.Splitting
import L4Book.Results.Submitting
import L4Book.Results.Totals
import L4Book.Results.Views
import L4Book.Results.WalletHex
import L4Book.Results.WireFormat
import L4Book.Results.WireSizes
import L4Book.Session
import L4Book.Types
import L4Book.Wallet
import L4Book.Wire
