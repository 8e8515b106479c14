import SimCme.Common.Types
import SimCme.Library.Heap
import SimCme.Library.OrderedMap
import SimCme.Library.WireLayout
import SimCme.Library.Machine
import SimCme.Library.Allocation
import SimCme.Library.Image
import SimCme.Library.Succession
import SimCme.Library.Arrivals
import SimCme.Library.Decimal
import SimCme.Library.FixedWindow
import SimCme.Library.CheckedInt
import SimCme.Library.NearestMultiple
import SimCme.Library.ListIndex
import SimCme.Library.SecondaryIndex
import SimCme.Library.RepeatedTakes
import SimCme.Library.Simulation
import SimCme.Library.BufferWalk
import SimCme.Library.InputStream
import SimCme.Library.Datagrams
import SimCme.Library.LinkedQueue
import SimCme.Common.MpscQueue
import SimCme.Instruments.InstrumentManager
import SimCme.Instruments.TickRounding
import SimCme.Engine.Order
import SimCme.Engine.LinkedLevel
import SimCme.Engine.SharedLevels
import SimCme.Engine.OrderBook
import SimCme.Engine.BookInvariant
import SimCme.Engine.Matching
import SimCme.Engine.BookRuns
import SimCme.Engine.LinkedBook
import SimCme.Engine.LinkedBookRuns
import SimCme.Engine.BookSafety
import SimCme.Engine.Conservation
import SimCme.Engine.PriceTime
import SimCme.Engine.Coverage
import SimCme.Engine.MatchSimulation
import SimCme.Engine.MarketOrders
import SimCme.Engine.Reentry
import SimCme.Engine.FillOrKill
import SimCme.Engine.Mirror
import SimCme.Engine.FullMatchingEngine
import SimCme.Engine.StepFrame
import SimCme.Engine.EngineRuns
import SimCme.Engine.OrderFinality
import SimCme.Engine.OrderLifecycle
import SimCme.Engine.Isolation
import SimCme.Engine.Ownership
import SimCme.Engine.Routing
import SimCme.Engine.Tracking
import SimCme.Engine.Arithmetic
import SimCme.MarketData.Replica
import SimCme.MarketData.Feed
import SimCme.Sbe.ILink3Messages
import SimCme.Sbe.MessageHeader
import SimCme.Sbe.ILink3Codecs
import SimCme.Gateway.MessageValidator
import SimCme.Gateway.RiskManager
import SimCme.Gateway.RateLimit
import SimCme.Gateway.ExecReportBuilder
import SimCme.Gateway.OrderEntryGateway
import SimCme.Gateway.GatewayRuns
import SimCme.Engine.ClientNames
import SimCme.Gateway.ClientOrderIds
import SimCme.Gateway.PreTradeChecks
import SimCme.Gateway.Answers
import SimCme.Gateway.TradingStatus
import SimCme.Gateway.OrderControl
import SimCme.Gateway.QuantityRange
import SimCme.Fixp.RetransmitBuffer
import SimCme.Fixp.Session
import SimCme.Fixp.SessionRuns
import SimCme.Fixp.InboundSequence
import SimCme.Fixp.GapAccounting
import SimCme.Fixp.Retransmission
import SimCme.Fixp.KeepAlive
import SimCme.Fixp.SessionCalls
import SimCme.Tools.ILink3Client
import SimCme.Fixp.Conversation
import SimCme.Gateway.FrameReads
import SimCme.Fixp.SessionManager
import SimCme.Server.ExchangeServer
import SimCme.Server.ReportRouting
import SimCme.Server.ExecutionIds
import SimCme.Sbe.RepeatingGroup
import SimCme.Sbe.Mdp3Messages
import SimCme.Sbe.ExtendedMessages
import SimCme.MarketData.IncrementalBuilder
import SimCme.Engine.SyntheticEngine
import SimCme.Engine.ReplayedBook
import SimCme.Engine.SyntheticOrders
import SimCme.Engine.SyntheticIndexes
import SimCme.Engine.ReplayedTrades
import SimCme.Engine.PacketReplay
import SimCme.Engine.PcapReader
import SimCme.Engine.PcapPayloads
import SimCme.Tools.Mdp3Listener
import SimCme.MarketData.PacketAlignment
import SimCme.MarketData.RptSeq
import SimCme.MarketData.SnapshotBuilder
import SimCme.MarketData.SnapshotCycler
import SimCme.MarketData.MarketDataPublisher
import SimCme.Library.Validation
import SimCme.Config.ConfigLoader
import SimCme.Instruments.InstrumentIndexes
import SimCme.MarketData.ChannelRouting
import SimCme.MarketData.InstrumentDefBuilder
import SimCme.MarketData.InstrumentPublication
import SimCme.MarketData.ChannelFeeds
import SimCme.MarketData.Receiver
import SimCme.MarketData.Recovery
import SimCme.Network.TcpConnection
import SimCme.Network.OutboundWrites
import SimCme.Library.Ledger
import SimCme.Engine.FillSides
import SimCme.Engine.Recipients
import SimCme.Gateway.Positions
import SimCme.Engine.Exposure
import SimCme.Gateway.PositionLimit
import SimCme.Common.BufferPool
import SimCme.Engine.ReplayedOrders
import SimCme.Tools.LossyFeed
import SimCme.Instruments.SecurityStatusMachine
import SimCme.Engine.Blotter
import SimCme.Gateway.ReportReading
import SimCme.Gateway.ReportedOrders
import SimCme.Tools.ClientOrders
