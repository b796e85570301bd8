import SessionServer.Foundation.Run
import SessionServer.Foundation.Stacks
import SessionServer.Common.Memory
import SessionServer.Common.RingBuffer
import SessionServer.Foundation.Simulation
import SessionServer.Common.RingMoves
import SessionServer.Common.RingQueue
import SessionServer.Common.RingResize
import SessionServer.Common.SerialBuffer
import SessionServer.Common.PacketBounds
import SessionServer.Common.PacketData
import SessionServer.Common.PacketRoundTrip
import SessionServer.Common.PacketRef
import SessionServer.ContentLib.Frame
import SessionServer.ContentLib.LanFrame
import SessionServer.ContentLib.BroadcastRun
import SessionServer.ContentLib.FrameRun
import SessionServer.ContentLib.RecvPost
import SessionServer.ContentLib.RecvBounds
import SessionServer.Foundation.Framing
import SessionServer.ContentLib.FrameStream
import SessionServer.ContentLib.ContentsServer
import SessionServer.ContentLib.Step
import SessionServer.ContentLib.Slots
import SessionServer.ContentLib.SlotRun
import SessionServer.ContentLib.SendBox
import SessionServer.ContentLib.SendRun
import SessionServer.ContentLib.StaleRun
import SessionServer.ContentLib.WakeRun
import SessionServer.Battle.Structure
import SessionServer.Battle.Fight
import SessionServer.Battle.Rows
import SessionServer.Battle.FightRun
import SessionServer.Battle.System
import SessionServer.Battle.SystemStep
import SessionServer.Battle.SystemRun
import SessionServer.Battle.Home
import SessionServer.Battle.HomeCount
import SessionServer.Battle.HomeClear
import SessionServer.Battle.HomeRun
import SessionServer.Battle.DB
import SessionServer.Battle.DBSave
import SessionServer.Battle.DBRun
import SessionServer.Battle.Tables
import SessionServer.Battle.MatchRun
import SessionServer.Battle.DBWorkersRun
import SessionServer.Battle.HandlingRun
import SessionServer.Battle.ControlRun
import SessionServer.Battle.ControlWake
import SessionServer.Battle.Ownership
import SessionServer.ContentLib.CancelRun
import SessionServer.ContentLib.SessionIDs
import SessionServer.ContentLib.TimeOut
import SessionServer.Foundation.Scan
import SessionServer.ContentLib.Codec
import SessionServer.Battle.Messages
import SessionServer.Battle.Started
import SessionServer.Battle.BeforeStart
import SessionServer.Battle.Arena
import SessionServer.Battle.Health
import SessionServer.Battle.Disconnected
import SessionServer.Battle.Recycled
import SessionServer.Battle.MatchIDGenerator
import SessionServer.Battle.Bans
import SessionServer.Battle.BansRun
import SessionServer.Battle.Roster
import SessionServer.Foundation.Walk
import SessionServer.Battle.Movement
import SessionServer.Foundation.Clock
import SessionServer.Battle.FrameClock
import SessionServer.Battle.FirstUpdate
import SessionServer.Battle.Requests
import SessionServer.Battle.Facing
import SessionServer.Battle.RateLimit
import SessionServer.MonitorClient.CoreClient
import SessionServer.MonitorClient.SendStream
import SessionServer.Foundation.Chain
import SessionServer.Foundation.Stock
import SessionServer.Common.TlsMemoryPool
import SessionServer.Common.TlsPoolRun
import SessionServer.Battle.ContentsNum
import SessionServer.Foundation.Seek
import SessionServer.Common.Parser
import SessionServer.Common.ParserScan
import SessionServer.Common.ParserReads
import SessionServer.Common.Config
import SessionServer.Foundation.Hands
import SessionServer.Common.MemoryPool
import SessionServer.Common.MemoryPoolCount
import SessionServer.Common.MemoryPoolRun
import SessionServer.Common.TaggedPointer
import SessionServer.Foundation.Histories
import SessionServer.Common.LockFree
import SessionServer.Common.LockFreeStack
import SessionServer.Common.LockFreeStackRun
import SessionServer.Common.LockFreeQueue
import SessionServer.Common.LockFreeQueueLine
import SessionServer.Common.LockFreeQueueStep
import SessionServer.Common.LockFreeQueueRun
import SessionServer.Common.LockFreeEmpty
import SessionServer.Foundation.Observer
import SessionServer.Battle.Replica
import SessionServer.Common.PacketReads
import SessionServer.Battle.Rpc
import SessionServer.Foundation.Expansion
import SessionServer.Battle.Wired
import SessionServer.ContentLib.Reclaim
import SessionServer.ContentLib.OneReceive
import SessionServer.ContentLib.SendOrder
import SessionServer.ContentLib.Delivery
import SessionServer.ContentLib.NetStream
import SessionServer.Foundation.Ticker
import SessionServer.ContentLib.FrameScheduler
import SessionServer.ContentLib.WorkerThread
import SessionServer.Battle.Shutdown
import SessionServer.Battle.Arrivals
