import LimitOrderBook.Types
import LimitOrderBook.Lib.While
import LimitOrderBook.Lib.Word
import LimitOrderBook.Lib.OpenAddressing
import LimitOrderBook.Lib.Intrusive
import LimitOrderBook.Arena
import LimitOrderBook.Index
import LimitOrderBook.Book
import LimitOrderBook.Risk
import LimitOrderBook.Engine
import LimitOrderBook.Exchange
import LimitOrderBook.Layout
import LimitOrderBook.WellFormed
import LimitOrderBook.Storage
import LimitOrderBook.HasLayout
import LimitOrderBook.Ladders
import LimitOrderBook.Simulation
import LimitOrderBook.Step
import LimitOrderBook.Reading
import LimitOrderBook.Consistency
import LimitOrderBook.Capacity
import LimitOrderBook.Reference
import LimitOrderBook.Priority
import LimitOrderBook.Margin
import LimitOrderBook.Reachable
import LimitOrderBook.IndexRuns
import LimitOrderBook.Matching
import LimitOrderBook.Uncrossed
import LimitOrderBook.EngineRuns
import LimitOrderBook.CancelRoutes
import LimitOrderBook.Termination
import LimitOrderBook.Exactness
import LimitOrderBook.ClientCancel
import LimitOrderBook.Lib.Codec
import LimitOrderBook.Lib.Crc
import LimitOrderBook.Wal
import LimitOrderBook.WalFormat
import LimitOrderBook.WalRecovery
import LimitOrderBook.WalDamage
import LimitOrderBook.MarketData
import LimitOrderBook.MarketFlow
import LimitOrderBook.Refusals
import LimitOrderBook.Trades
import LimitOrderBook.Deposits
import LimitOrderBook.RoundTrip
import LimitOrderBook.Tags
import LimitOrderBook.Replay
import LimitOrderBook.Lib.Ledger
import LimitOrderBook.Balances
import LimitOrderBook.Solvency
import LimitOrderBook.MarginLedger
import LimitOrderBook.MarketSettlement
import LimitOrderBook.Checksum
import LimitOrderBook.Lib.LogLinear
import LimitOrderBook.Lib.Quantile
import LimitOrderBook.Metrics
import LimitOrderBook.Percentiles
import LimitOrderBook.Execution
import LimitOrderBook.Atomicity
import LimitOrderBook.Authorisation
import LimitOrderBook.ImmediateOrCancel
import LimitOrderBook.Mirror
import LimitOrderBook.Lib.Machine
import LimitOrderBook.Lib.Channel
import LimitOrderBook.Framing
import LimitOrderBook.Connections
import LimitOrderBook.Pipeline
import LimitOrderBook.PipelineSteps
import LimitOrderBook.PipelineRuns
import LimitOrderBook.Delivery
import LimitOrderBook.Durability
import LimitOrderBook.Recovery
import LimitOrderBook.Draining
import LimitOrderBook.Rounds
import LimitOrderBook.Lifecycle
import LimitOrderBook.Quotes
import LimitOrderBook.Quoting
import LimitOrderBook.MarketMaker
import LimitOrderBook.Benchmark
import LimitOrderBook.Isolation
import LimitOrderBook.Routing
import LimitOrderBook.Report
import LimitOrderBook.Tape
