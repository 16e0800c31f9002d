import GameServer.Buffs.Decay
import GameServer.Buffs.Recycled
import GameServer.CircularBuffer.Fifo
import GameServer.ClientSessions
import GameServer.ClientSessions.LifeCycle
import GameServer.ClientSessions.Phases
import GameServer.ClientSessions.Registry
import GameServer.ClientSessions.Step
import GameServer.DataSendingClient
import GameServer.DataSendingClient.Echo
import GameServer.DatabaseJobs.Homework7
import GameServer.DatabaseJobs.PlayerTable
import GameServer.DatabaseJobs.References
import GameServer.FastSpinlock.Exclusion
import GameServer.FeedCenter
import GameServer.FeedCenter.Feeds
import GameServer.FeedCenter.Sweep
import GameServer.FlushPath.Echo
import GameServer.FlushPath.Stranding
import GameServer.GameDB
import GameServer.GameDB.Loads
import GameServer.GameDB.Serial
import GameServer.GrandCentralExecuter.Serial
import GameServer.HalfDuplex.Echo
import GameServer.Handlers.Exchange
import GameServer.Lib.Directory
import GameServer.Lib.Entries
import GameServer.Lib.Heap
import GameServer.Lib.Visits
import GameServer.Lib.Workers
import GameServer.Lifecycle.Homework4
import GameServer.Lifecycle.Leaks
import GameServer.Lifecycle.Locks
import GameServer.Lifecycle.PendingSends
import GameServer.Lifecycle.WorkerPool
import GameServer.LockOrderChecker.Deadlock
import GameServer.Log.Dumps
import GameServer.Log.Elapsed
import GameServer.Log.EventLog
import GameServer.MarketTable
import GameServer.MarketTable.Watching
import GameServer.MemoryPool.Blocks
import GameServer.MemoryPool.Homework3
import GameServer.MemoryPool.Rounding
import GameServer.MemoryPool.STLAllocator
import GameServer.ObjectPool.Separation
import GameServer.PacketHandling.Lemmas
import GameServer.PlayerRecord.Creation
import GameServer.Players.Issued
import GameServer.Players.LockOrder
import GameServer.Players.Ticks
import GameServer.Protobuf.Messages
import GameServer.Protobuf.MyPacket
import GameServer.Protobuf.Varints
import GameServer.Protobuf.WireFormatLite
import GameServer.SendPath.Once
import GameServer.Session.Echo
import GameServer.SessionMgr
import GameServer.Timer
import GameServer.Timer.Jobs
import GameServer.Timer.References
