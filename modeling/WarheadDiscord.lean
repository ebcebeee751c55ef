import WarheadDiscord.Lib.Bytes
import WarheadDiscord.Lib.Machine
import WarheadDiscord.Lib.KeyOrder
import WarheadDiscord.Lib.Loop
import WarheadDiscord.Lib.MixedRadix
import WarheadDiscord.Scheduler.TimeOrder
import WarheadDiscord.Scheduler.TickSplit
import WarheadDiscord.Scheduler.Async
import WarheadDiscord.Threading.MPSCQueue
import WarheadDiscord.Threading.PCQueue
import WarheadDiscord.Network.SendPath
import WarheadDiscord.Network.DelayedClose
import WarheadDiscord.Network.Framing
import WarheadDiscord.Network.Receiver
import WarheadDiscord.Network.FrameCodec
import WarheadDiscord.Network.NetworkThread
import WarheadDiscord.Network.BufferBounds
import WarheadDiscord.Server.AccountInfo
import WarheadDiscord.Server.ReadStall
import WarheadDiscord.Server.PingRate
import WarheadDiscord.Server.Channels
import WarheadDiscord.Server.DiscordSession
import WarheadDiscord.Server.GuildCache
import WarheadDiscord.Server.DiscordConfig
import WarheadDiscord.Database.DatabaseLoader
import WarheadDiscord.Database.ConnectionInfo
import WarheadDiscord.Database.StatementBinding
import WarheadDiscord.Database.StatementOrder
import WarheadDiscord.Database.StatementRuns
import WarheadDiscord.Database.IntegerField
import WarheadDiscord.Database.Transaction
import WarheadDiscord.Database.TransactionTask
import WarheadDiscord.Database.QueryCallback
import WarheadDiscord.Database.ResultBuffer
import WarheadDiscord.Database.PoolOpen
import WarheadDiscord.Database.PoolClose
import WarheadDiscord.Database.PoolQueue
import WarheadDiscord.Database.QueryString
import WarheadDiscord.Database.Reconnect
import WarheadDiscord.Common.Config
import WarheadDiscord.Common.AsyncCallbackProcessor
import WarheadDiscord.Common.IPLocation
import WarheadDiscord.Common.Tokenize
import WarheadDiscord.Common.Format
import WarheadDiscord.Common.Timer
import WarheadDiscord.Common.HexStr
import WarheadDiscord.Server.Shutdown
import WarheadDiscord.Server.UpdateLoop
import WarheadDiscord.Server.UpdateTime
import WarheadDiscord.Updater.Resume
import WarheadDiscord.Updater.ForeignRows
import WarheadDiscord.Updater.RowOrder
import WarheadDiscord.Updater.PromotedRow
import WarheadDiscord.Updater.CleanUp
import WarheadDiscord.Account.Credentials
import WarheadDiscord.Account.Registration
import WarheadDiscord.Account.BanMgr
import WarheadDiscord.Account.BanExpiry
import WarheadDiscord.Database.StatementSlots
import WarheadDiscord.Account.RandomKey
import WarheadDiscord.Logging.Pattern
import WarheadDiscord.Logging.RejectedPattern
import WarheadDiscord.Logging.Log
import WarheadDiscord.Logging.Logger
import WarheadDiscord.Packets.ByteBuffer
import WarheadDiscord.Packets.CompactArray
import WarheadDiscord.Packets.MessagePackets
import WarheadDiscord.Packets.PackedFormats
import WarheadDiscord.Packets.PacketUtilities
import WarheadDiscord.Bot.AccountCommands
import WarheadDiscord.Bot.Embed
import WarheadDiscord.Server.MessageHandler
import WarheadDiscord.Lib.ObjectHeap
import WarheadDiscord.Server.SessionRegistry
import WarheadDiscord.Server.SessionThreads
import WarheadDiscord.Updater.FileList
import WarheadDiscord.Database.LoaderStages
import WarheadDiscord.Server.MessageFlow
import WarheadDiscord.Lib.Sparse
import WarheadDiscord.Lib.Srp
import WarheadDiscord.Cryptography.Srp6
import WarheadDiscord.Scheduler.Periodic
import WarheadDiscord.Server.Schedule
import WarheadDiscord.Network.CompletionPorts
import WarheadDiscord.Database.QueryFlow
import WarheadDiscord.Lib.TryLock
import WarheadDiscord.Database.SyncConnections
