import Meridian.Lib.Binary64
import Meridian.Lib.Run
import Meridian.Lib.Keyed
import Meridian.Lib.Coop
import Meridian.Lib.Matching
import Meridian.Lib.Threads
import Meridian.Lib.Stretches
import Meridian.Lib.Fair
import Meridian.Lib.HalfEven
import Meridian.Lib.BoundedQueue
import Meridian.Lib.Codec
import Meridian.Lib.Paging
import Meridian.Lib.HiddenPaths
import Meridian.Lib.Gibbs
import Meridian.Lib.EventLog
import Meridian.Exchange.Base
import Meridian.Exchange.CcxtConnector
import Meridian.Safety.QSwitch
import Meridian.Safety.CircuitBreaker
import Meridian.Safety.Epochs
import Meridian.Safety.RateLimiter
import Meridian.Safety.Heartbeat
import Meridian.Config.Schema
import Meridian.Config.Update
import Meridian.Utils.MathUtils
import Meridian.Utils.RealFunctions
import Meridian.Quant.Volatility
import Meridian.Quant.HmmRegime
import Meridian.Quant.HmmFallback
import Meridian.Quant.Aggressiveness
import Meridian.Quant.SpreadEngine
import Meridian.Quant.RegimeDetector
import Meridian.Quant.ForwardBackward
import Meridian.Quant.Expectations
import Meridian.Quant.ProperModel
import Meridian.Quant.NoData
import Meridian.Quant.OnlineFilter
import Meridian.Quant.BaumWelch
import Meridian.Core.FillSimulator
import Meridian.Core.Liquidity
import Meridian.Core.System
import Meridian.Core.Venue
import Meridian.Core.OrderManager
import Meridian.Core.OrderCalls
import Meridian.Core.OrdersTable
import Meridian.Core.AgeOut
import Meridian.Core.OrderTracking
import Meridian.Core.ExchangeBot
import Meridian.Core.PaperTrader
import Meridian.Core.Tasks
import Meridian.Core.Permits
import Meridian.Core.EmergencyStop
import Meridian.Core.Orchestrator
import Meridian.Core.PaperSystem
import Meridian.Core.PaperFills
import Meridian.Core.PaperBooks
import Meridian.Core.FillIngest
import Meridian.Core.DiffRepost
import Meridian.Core.DryRepost
import Meridian.Core.QSwitchHalt
import Meridian.Core.Resume
import Meridian.Core.Feeds
import Meridian.Core.InventoryTracker
import Meridian.Core.Reload
import Meridian.Core.HotReload
import Meridian.Core.ReloadMarket
import Meridian.Core.Baseline
import Meridian.Core.PriceGrid
import Meridian.Cpp.Seqlock
import Meridian.Cpp.SpscQueue
import Meridian.Cpp.SpscThreads
import Meridian.Cpp.AtomicDoubleBuffer
import Meridian.Cpp.GateBalance
import Meridian.Cpp.Connector
import Meridian.Cpp.GateOrders
import Meridian.Cpp.GateWsPtr
import Meridian.Cpp.MexcConnector
import Meridian.Core.GlobalMid
import Meridian.Core.MexcRepost
import Meridian.Cpp.GateFrames
import Meridian.Cpp.WsFrames
import Meridian.Cpp.WsMessages
import Meridian.Cpp.GateRequests
import Meridian.Cpp.ConnectJoin
import Meridian.Cpp.Reconnect
import Meridian.Cpp.OrderRateLimiter
import Meridian.Cpp.OrderBursts
import Meridian.Cpp.OrderBackoff
import Meridian.Cpp.RetryDelay
import Meridian.Quant.InwardLevels
import Meridian.Quant.MinStep
import Meridian.Quant.ProfitableSpread
import Meridian.Core.TickAggressiveness
import Meridian.Core.GridMonotone
import Meridian.Lib.Descent
import Meridian.Quant.DepthEngine
import Meridian.Core.TickGrid
import Meridian.Core.InventorySkew
import Meridian.Core.RegimeAggressiveness
import Meridian.Quant.CandleBuffer
import Meridian.Core.Observations
import Meridian.Cpp.Candles
import Meridian.Cpp.KucoinOrders
import Meridian.Lib.FixedPoint
import Meridian.Cpp.GateFilter
import Meridian.Lib.Numeral
import Meridian.Cpp.HttpBody
import Meridian.Core.Rebalancer
import Meridian.Core.AbComparator
import Meridian.Core.AbTicks
import Meridian.Api.LiveFeed
import Meridian.Exchange.CcxtWs
import Meridian.Lib.Protocol
import Meridian.Core.Requests
import Meridian.Core.Backtest
import Meridian.Cpp.KrakenBootstrap
import Meridian.Cpp.KrakenOrders
import Meridian.Lib.Pieces
import Meridian.Lib.Signal
import Meridian.Lib.HiddenFilter
import Meridian.Quant.RegimeFilter
import Meridian.Core.RegimeMaster
import Meridian.Lib.HttpRequest
import Meridian.Cpp.Signing
