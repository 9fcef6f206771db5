import Gendo.Library.Binary64
import Gendo.Library.BufferedLines
import Gendo.Library.ByteMemory
import Gendo.Library.CLayout
import Gendo.Library.Calendar
import Gendo.Library.Channel
import Gendo.Library.Php
import Gendo.Library.SqlText
import Gendo.Library.StepSystem
import Gendo.Library.Table
import Gendo.Library.Tally
import Gendo.Library.TextColumn
import Gendo.Server.ConfigFile
import Gendo.Server.ConfigStore
import Gendo.Server.DbThreads
import Gendo.Server.ExactlyOnce
import Gendo.Server.Frame
import Gendo.Server.FrameStream
import Gendo.Server.HandlePool
import Gendo.Server.HonestReply
import Gendo.Server.Leak
import Gendo.Server.LoginAuth
import Gendo.Server.MsgConsumer
import Gendo.Server.MsgOwnership
import Gendo.Server.MsgPool
import Gendo.Server.MsgQueue
import Gendo.Server.RecordsFit
import Gendo.Server.Replies
import Gendo.Server.ThreadPool
import Gendo.Server.UserDb
import Gendo.Server.UserMsg
import Gendo.Server.WholeFrames
import Gendo.Server.WireLayout
import Gendo.Client.CompleteReplies
import Gendo.Client.SyncMsg
import Gendo.Web.Activation
import Gendo.Web.Alipay
import Gendo.Web.Checkout
import Gendo.Web.Credit
import Gendo.Web.Expiry
import Gendo.Web.Orders
import Gendo.Web.PriceIntegrity
import Gendo.Web.Register
import Gendo.Server.Acceptor
import Gendo.Web.UserMdl
import Gendo.Web.Registration
import Gendo.Web.Passwords
import Gendo.Client.Session
import Gendo.Client.Aes
import Gendo.Client.BinaryFile
import Gendo.Client.TextFile
import Gendo.Client.Update
import Gendo.Client.Download
import Gendo.Client.DownloadSplit
import Gendo.Client.DownloadEnds
import Gendo.Client.Segments
import Gendo.Client.Repair
import Gendo.Client.Resume
import Gendo.Library.LinkedList
import Gendo.Server.LibList
import Gendo.Library.OrderedMap
import Gendo.Server.IndexCache
import Gendo.Server.IndexCacheWalk
import Gendo.Server.Timer
import Gendo.Server.TimerTicks
import Gendo.Client.DownloadRecords
import Gendo.Server.MsgCapacity
import Gendo.Server.TimedReceive
import Gendo.Server.ConfigErrors
import Gendo.Server.PoolShutdown
import Gendo.Library.ChainedHash
import Gendo.Server.PollRegistry
import Gendo.Server.PollTimer
import Gendo.Server.Ticket
import Gendo.Library.Pieces
import Gendo.Server.StringSplit
import Gendo.Library.RingBuffer
import Gendo.Client.RopQueue
import Gendo.Client.RopQueueThreads
import Gendo.Client.TimedOutReceive
import Gendo.Client.UpdateDetection
import Gendo.Client.CfgItem
import Gendo.Library.Shlwapi
import Gendo.Client.CfgFile
import Gendo.Client.CfgBounds
import Gendo.Client.CfgLoad
import Gendo.Client.CfgText
import Gendo.Client.CfgParams
import Gendo.Library.WordBits
import Gendo.Server.IpMask
import Gendo.Client.PingServers
import Gendo.Library.OnesComplement
import Gendo.Client.Ping
import Gendo.Library.Base64
import Gendo.Client.ProxyAuth
import Gendo.Library.LineStream
import Gendo.Client.OpenVpnLog
import Gendo.Client.SvrList
import Gendo.Client.SslPorts
import Gendo.Client.ProxyHandshake
import Gendo.Client.SavedRows
import Gendo.Client.EncryptedFile
import Gendo.Client.CfgSections
import Gendo.Library.RowPasses
import Gendo.Client.GenerateFile
import Gendo.Library.DecimalText
import Gendo.Library.Runs
import Gendo.Library.PointerScan
import Gendo.Library.Md5
import Gendo.Server.FieldSplit
import Gendo.Server.Cookie
import Gendo.Web.SoapSequence
import Gendo.Web.OrderSerials
import Gendo.Server.PollReactor
import Gendo.Client.Exchange
import Gendo.Client.FileMd5
import Gendo.Library.FormText
import Gendo.Web.AlipaySign
import Gendo.Server.PollSignal
import Gendo.Client.EventQueue
import Gendo.Client.AsyncDll
import Gendo.Library.Window
import Gendo.Server.MemTool
import Gendo.Server.MemHeap
import Gendo.Server.MemGuards
import Gendo.Server.HashTable
import Gendo.Server.HashRuns
