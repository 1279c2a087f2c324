import ExchangeServer.Foundation.Table
import ExchangeServer.Foundation.KeyText
import ExchangeServer.Foundation.ReadCommitted
import ExchangeServer.Foundation.Machine
import ExchangeServer.Wallet.Locks
import ExchangeServer.Wallet.EngineInputs
import ExchangeServer.Wallet.Repository
import ExchangeServer.Wallet.Queue
import ExchangeServer.Wallet.Transactions
import ExchangeServer.Wallet.Commits
import ExchangeServer.Ledger.Processor
import ExchangeServer.Wallet.Deliveries
import ExchangeServer.Wallet.Origins
import ExchangeServer.Wallet.Availability
import ExchangeServer.Wallet.AtMostOnce
import ExchangeServer.Wallet.StoredReplies
import ExchangeServer.Wallet.FundedOrders
import ExchangeServer.Wallet.Runs
import ExchangeServer.Wallet.CrashRestart
import ExchangeServer.Wallet.LostUpdate
import ExchangeServer.Wallet.Balances
import ExchangeServer.Wallet.LockedFunds
import ExchangeServer.Wallet.Reconciliation
import ExchangeServer.Wallet.Relay
import ExchangeServer.Wallet.OutboxDelivery
import ExchangeServer.Wallet.OutboxOrder
import ExchangeServer.Ledger.Repository
import ExchangeServer.Ledger.Queue
import ExchangeServer.Ledger.ExactlyOnce
import ExchangeServer.Server.Replies
import ExchangeServer.Wallet.Answers
import ExchangeServer.Server.Requests
import ExchangeServer.Server.Retries
import ExchangeServer.Server.Consistency
import ExchangeServer.Foundation.Indexed
import ExchangeServer.Projector.Database
import ExchangeServer.Projector.Positions
import ExchangeServer.Projector.EventLog
import ExchangeServer.Projector.Orderbook
import ExchangeServer.Foundation.LastWriter
import ExchangeServer.Projector.OrderbookFold
import ExchangeServer.Projector.PositionSteps
import ExchangeServer.Projector.SignedPositions
import ExchangeServer.Projector.ReduceOnly
import ExchangeServer.Projector.Orders
import ExchangeServer.Projector.Frames
import ExchangeServer.Projector.UnrealizedPnl
import ExchangeServer.Wallet.OwnLedger
import ExchangeServer.Wallet.AccountDeltas
import ExchangeServer.Wallet.Settlements
import ExchangeServer.Projector.OrderbookSnapshot
import ExchangeServer.Timeseries.Repository
import ExchangeServer.Timeseries.Candles
import ExchangeServer.Foundation.SetMap
import ExchangeServer.Ws.Hub
import ExchangeServer.Ws.Indexes
import ExchangeServer.Foundation.Json
import ExchangeServer.Protocol.WireCommon
import ExchangeServer.Protocol.WireEngine
import ExchangeServer.Protocol.WireWallet
import ExchangeServer.Ws.Router
import ExchangeServer.Ws.Privacy
import ExchangeServer.Projector.Processor
import ExchangeServer.Projector.OrderSteps
import ExchangeServer.Projector.OrderStatus
import ExchangeServer.Projector.OrderEnds
import ExchangeServer.Foundation.Executions
import ExchangeServer.Projector.Queue
import ExchangeServer.Projector.ExactlyOnce
import ExchangeServer.Server.Orders
import ExchangeServer.Projector.LiquidationSides
import ExchangeServer.Wallet.Outbox
import ExchangeServer.EngineIngress.Inputs
import ExchangeServer.Wallet.References
import ExchangeServer.Timeseries.CandleMerge
import ExchangeServer.Wallet.Acknowledged
import ExchangeServer.Foundation.AverageCost
import ExchangeServer.Projector.FillRuns
import ExchangeServer.Projector.PositionMargins
import ExchangeServer.Projector.PositionFills
import ExchangeServer.Projector.PositionLife
import ExchangeServer.Foundation.SlidingWindow
import ExchangeServer.Ws.Dedupe
import ExchangeServer.Foundation.Lanes
import ExchangeServer.Projector.MarketModel
import ExchangeServer.Projector.MarketSteps
import ExchangeServer.Projector.RecordSteps
import ExchangeServer.Projector.RecordTrades
import ExchangeServer.Projector.Turns
import ExchangeServer.Projector.Interleavings
import ExchangeServer.Foundation.LockOrder
import ExchangeServer.Foundation.Serial
import ExchangeServer.Foundation.Query
import ExchangeServer.Timeseries.Locks
import ExchangeServer.Timeseries.Queue
import ExchangeServer.Timeseries.Interleavings
import ExchangeServer.Timeseries.LockOrder
import ExchangeServer.Ledger.LockOrder
import ExchangeServer.Server.Markets
import ExchangeServer.Wallet.LockOrder
import ExchangeServer.Ws.Session
import ExchangeServer.Ws.KnownSessions
import ExchangeServer.Ws.SessionRuns
import ExchangeServer.Ws.Subscribers
import ExchangeServer.Ws.ClientTexts
import ExchangeServer.Wallet.BrokerRecords
import ExchangeServer.Ledger.Pipeline
import ExchangeServer.Foundation.Groups
import ExchangeServer.Projector.Ownership
import ExchangeServer.Projector.TradeSteps
import ExchangeServer.Projector.OpenInterest
import ExchangeServer.Projector.PositionLinks
import ExchangeServer.Server.Fills
import ExchangeServer.Foundation.Refusals
import ExchangeServer.Wallet.StoredText
