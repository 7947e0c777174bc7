import HighPerfTrading.Library.Codec
import HighPerfTrading.Library.Decimal
import HighPerfTrading.Library.MachineInt
import HighPerfTrading.Library.CheckedInt
import HighPerfTrading.Library.AverageCost
import HighPerfTrading.Library.OrderedMap
import HighPerfTrading.Library.Runs
import HighPerfTrading.Library.PriceTime
import HighPerfTrading.Library.Slab
import HighPerfTrading.Common.Types
import HighPerfTrading.Common.Wire
import HighPerfTrading.Codecs.Binary
import HighPerfTrading.Codecs.DecodeCommand
import HighPerfTrading.Codecs.EncodeEvent
import HighPerfTrading.Engine.AccountManager
import HighPerfTrading.Engine.OrderBook
import HighPerfTrading.Engine.BookView
import HighPerfTrading.Engine.BookMatch
import HighPerfTrading.Engine.BookInvariant
import HighPerfTrading.Engine.BookRun
import HighPerfTrading.Engine.BookRefines
import HighPerfTrading.Engine.BookSnapshot
import HighPerfTrading.Engine.MatchTermination
import HighPerfTrading.Engine.SlabStorage
import HighPerfTrading.Engine.LiveSum
import HighPerfTrading.Engine.BookRepresentation
import HighPerfTrading.Engine.Engine
import HighPerfTrading.Engine.EngineSpec
import HighPerfTrading.Engine.EngineStep
import HighPerfTrading.Engine.Confined
import HighPerfTrading.Engine.EngineRun
import HighPerfTrading.Engine.Positions
import HighPerfTrading.Engine.FillHistory
import HighPerfTrading.Engine.Conservation
import HighPerfTrading.Engine.PositionLimits
import HighPerfTrading.Engine.Rejections
import HighPerfTrading.Engine.SymbolIds
import HighPerfTrading.Engine.Replay
import HighPerfTrading.Engine.Numbering
import HighPerfTrading.Engine.Checked
import HighPerfTrading.Engine.CheckedAgrees
import HighPerfTrading.Engine.RoundingDrift
import HighPerfTrading.Engine.ZeroSum
import HighPerfTrading.Engine.CheckedBook
import HighPerfTrading.Engine.ExactArithmetic
import HighPerfTrading.Engine.PriceBounds
import HighPerfTrading.Engine.Uncrossed
import HighPerfTrading.Gateway.AccountManager
import HighPerfTrading.Gateway.BuyingPower
import HighPerfTrading.Gateway.ReplaceAdmission
import HighPerfTrading.Gateway.TokenLedger
import HighPerfTrading.Gateway.ClientHandler
import HighPerfTrading.Gateway.FrameEffect
import HighPerfTrading.Gateway.CarriedOut
import HighPerfTrading.Gateway.Reservations
import HighPerfTrading.Gateway.RoutingFailure
import HighPerfTrading.Gateway.Consistency
import HighPerfTrading.Gateway.Confined
import HighPerfTrading.Gateway.Confidential
import HighPerfTrading.Gateway.Reconciliation
import HighPerfTrading.Persistence.Journal
import HighPerfTrading.Persistence.Snapshot
import HighPerfTrading.Persistence.Recovery
import HighPerfTrading.Persistence.RecoveryRuns
import HighPerfTrading.Persistence.ReplaySuffix
import HighPerfTrading.Persistence.JournalRuns
import HighPerfTrading.Persistence.TornTail
import HighPerfTrading.Persistence.FailedFlush
import HighPerfTrading.Persistence.Rotation
import HighPerfTrading.Persistence.FailedRecovery
import HighPerfTrading.Persistence.LatestSnapshot
import HighPerfTrading.Persistence.ServerSeq
import HighPerfTrading.Gateway.AccountRecovery
import HighPerfTrading.Gateway.SnapshotTask
import HighPerfTrading.System.System
import HighPerfTrading.System.Answers
import HighPerfTrading.System.Authorization
import HighPerfTrading.System.CancelAck
import HighPerfTrading.System.Provenance
import HighPerfTrading.System.Cover
import HighPerfTrading.System.FillsMirror
import HighPerfTrading.System.Reservations
import HighPerfTrading.System.Exchange
import HighPerfTrading.System.RestartTokens
import HighPerfTrading.System.Restart
import HighPerfTrading.System.Limits
import HighPerfTrading.Library.Walks
import HighPerfTrading.Library.RedoLog
import HighPerfTrading.Common.GatewayProtocol
import HighPerfTrading.Engine.Market
import HighPerfTrading.Engine.MarketRefines
import HighPerfTrading.Engine.TimePriority
import HighPerfTrading.Engine.Liquidity
import HighPerfTrading.Engine.Alike
import HighPerfTrading.Engine.OneAnswer
import HighPerfTrading.Persistence.Durability
import HighPerfTrading.EngineServer.GatewayConnection
import HighPerfTrading.EngineServer.Steps
import HighPerfTrading.EngineServer.Delivery
import HighPerfTrading.EngineServer.Queries
import HighPerfTrading.EngineServer.Silence
import HighPerfTrading.EngineServer.Progress
import HighPerfTrading.Library.Simulation
import HighPerfTrading.System.EngineLink
import HighPerfTrading.System.Deployment
import HighPerfTrading.System.DeploymentRefines
import HighPerfTrading.System.Startup
import HighPerfTrading.System.StartupReports
import HighPerfTrading.System.Overload
import HighPerfTrading.Gateway.ClientConnections
import HighPerfTrading.Gateway.ClientDelivery
import HighPerfTrading.Gateway.Tasks
import HighPerfTrading.Gateway.TasksInTurn
import HighPerfTrading.Library.Custody
import HighPerfTrading.Gateway.TaskTokens
import HighPerfTrading.Gateway.TasksApart
import HighPerfTrading.Gateway.TasksRace
