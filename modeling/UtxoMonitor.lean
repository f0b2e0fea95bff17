import UtxoMonitor.Domain
import UtxoMonitor.Index.Backfill
import UtxoMonitor.Index.Coverage
import UtxoMonitor.Server.Lookup
import UtxoMonitor.Handler.Order
import UtxoMonitor.Handler.Replay
import UtxoMonitor.Handler.Spends
import UtxoMonitor.Handler.Confirmed
import UtxoMonitor.Handler.Race
import UtxoMonitor.Handler.Backfilling
import UtxoMonitor.Server.Responses
import UtxoMonitor.Server.Service
import UtxoMonitor.ChainSync.Threshold
import UtxoMonitor.Tracker.Deadline
import UtxoMonitor.Tracker.Rollback
import UtxoMonitor.Tracker.Queue
import UtxoMonitor.Mempool.Stream
import UtxoMonitor.ChainSync.Restart
import UtxoMonitor.ChainSync.AtomicFlow
import UtxoMonitor.ChainSync.BlockHash
import UtxoMonitor.ChainSync.ReplayRange
import UtxoMonitor.Handler.LedgerUtxo
import UtxoMonitor.LiquidityBook.LimitOrder
import UtxoMonitor.LiquidityBook.Commit
import UtxoMonitor.LiquidityBook.Termination
import UtxoMonitor.LiquidityBook.Downgrade
import UtxoMonitor.Lib.Checked
import UtxoMonitor.Pools.Types
import UtxoMonitor.Pools.Cfmm
import UtxoMonitor.Pools.ConstFn
import UtxoMonitor.Pools.Balance
import UtxoMonitor.Pools.Stable
import UtxoMonitor.Pools.Quadratic
import UtxoMonitor.Pools.AnyPool
import UtxoMonitor.LiquidityBook.Limits
import UtxoMonitor.LiquidityBook.Conservation
import UtxoMonitor.Pools.Book
import UtxoMonitor.Pools.Curve
import UtxoMonitor.Cardano.PlutusData
import UtxoMonitor.Pools.Ledger
import UtxoMonitor.Pools.Orders
import UtxoMonitor.Pools.Regular
import UtxoMonitor.Pools.Parsing
import UtxoMonitor.Pools.Dao
import UtxoMonitor.Pools.RoyaltyHistory
import UtxoMonitor.Pools.RoyaltyAccounts
import UtxoMonitor.Pools.Preview
import UtxoMonitor.ExecutionEngine.References
import UtxoMonitor.LiquidityBook.Chronology
import UtxoMonitor.ExecutionEngine.FeeBalancing
import UtxoMonitor.ExecutionEngine.Successors
import UtxoMonitor.EventSink.Index
import UtxoMonitor.EventSink.Handler
import UtxoMonitor.EventSink.Transitions
import UtxoMonitor.EventSink.Chain
import UtxoMonitor.EventSink.Completeness
import UtxoMonitor.EventSink.Liveness
import UtxoMonitor.EventSink.Inversion
import UtxoMonitor.Lib.Custody
import UtxoMonitor.Orders.Limit
import UtxoMonitor.EventSink.Beacons
import UtxoMonitor.Orders.Takers
import UtxoMonitor.Orders.Instant
import UtxoMonitor.Orders.Grid
import UtxoMonitor.Orders.Contract
import UtxoMonitor.Lib.Shares
import UtxoMonitor.Pools.Product
import UtxoMonitor.Tracker.Expiry
import UtxoMonitor.Pools.Deposits
import UtxoMonitor.Pools.BalanceDeposits
import UtxoMonitor.Pools.StableDeposits
import UtxoMonitor.Pools.StableSwap
import UtxoMonitor.Lib.PriorityQueue
import UtxoMonitor.Backlog.Hot
import UtxoMonitor.Backlog.Persistent
import UtxoMonitor.Backlog.Visits
import UtxoMonitor.Lib.Serial
import UtxoMonitor.BoxResolver.Persistence
import UtxoMonitor.BoxResolver.View
import UtxoMonitor.BoxResolver.InMemory
import UtxoMonitor.BoxResolver.OnDisk
import UtxoMonitor.BoxResolver.Backends
import UtxoMonitor.Backlog.Law
import UtxoMonitor.LiquidityBook.Tlb
import UtxoMonitor.ExecutionEngine.Entities
import UtxoMonitor.ExecutionEngine.Executor
import UtxoMonitor.ExecutionEngine.Settled
import UtxoMonitor.ExecutionEngine.ExecutionState
import UtxoMonitor.ExecutionEngine.Takes
import UtxoMonitor.Lib.Fraction
import UtxoMonitor.LiquidityBook.Choice
import UtxoMonitor.LiquidityBook.ChoiceWords
import UtxoMonitor.LiquidityBook.FeeBias
import UtxoMonitor.LiquidityBook.SettleWords
import UtxoMonitor.Orders.AnyOrder
import UtxoMonitor.Pools.QuadraticFees
import UtxoMonitor.Pools.Weighted
import UtxoMonitor.Lib.FixedPoint
import UtxoMonitor.Pools.Newton
import UtxoMonitor.Pools.Convergence
import UtxoMonitor.Pools.SwapRoot
import UtxoMonitor.Pools.StableTrades
import UtxoMonitor.Pools.ContextValues
import UtxoMonitor.Lib.Window
import UtxoMonitor.Tracker.FilterHistory
import UtxoMonitor.Cardano.OutputRefText
import UtxoMonitor.Orders.OperatorFees
import UtxoMonitor.Orders.Hardening
import UtxoMonitor.EventSink.WholeTransaction
import UtxoMonitor.Lib.Links
import UtxoMonitor.BoxResolver.Resolve
import UtxoMonitor.Lib.Sorting
import UtxoMonitor.ExecutionEngine.Blueprint
import UtxoMonitor.ExecutionEngine.Projection
import UtxoMonitor.Lib.Tallies
import UtxoMonitor.Orders.Budgets
import UtxoMonitor.Orders.BudgetCorrection
import UtxoMonitor.Orders.ExactBalancing
import UtxoMonitor.ExecutionEngine.Reserves
import UtxoMonitor.Lib.Text
import UtxoMonitor.Cardano.AssetNames
import UtxoMonitor.Cardano.AssetNameText
import UtxoMonitor.Lib.Padding
import UtxoMonitor.ExecutionEngine.TokenKeys
import UtxoMonitor.Lib.Nested
import UtxoMonitor.Cardano.ValueEdits
import UtxoMonitor.ExecutionEngine.Makes
import UtxoMonitor.ExecutionEngine.Surplus
import UtxoMonitor.ExecutionEngine.Preservation
import UtxoMonitor.Lib.Assoc
import UtxoMonitor.Pools.Readings
import UtxoMonitor.Pools.Evolution
import UtxoMonitor.ExecutionEngine.PoolDatums
import UtxoMonitor.ExecutionEngine.PoolOutputs
import UtxoMonitor.ExecutionEngine.PoolUpdates
import UtxoMonitor.ExecutionEngine.PoolSuccessors
import UtxoMonitor.Pools.Holders
import UtxoMonitor.Pools.ClassicalOrders
import UtxoMonitor.ExecutionEngine.OrderTransactions
import UtxoMonitor.Executor.HotOrders
import UtxoMonitor.Executor.PoolStates
import UtxoMonitor.ExecutionEngine.Funding
import UtxoMonitor.Tracker.Submission
import UtxoMonitor.Lib.Locks
import UtxoMonitor.EventSink.Interleaving
