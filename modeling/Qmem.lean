import Qmem.Lib.CStr
import Qmem.Lib.Json
import Qmem.Lib.JsonDoc
import Qmem.Lib.JsonCont
import Qmem.Lib.JsonCtrl
import Qmem.Lib.PoolTable
import Qmem.Lib.PoolLinks
import Qmem.Lib.Qsort
import Qmem.Lib.Run
import Qmem.Lib.Endless
import Qmem.Lib.Scan
import Qmem.Lib.FirstSeen
import Qmem.Lib.Strto
import Qmem.Lib.Lines
import Qmem.Lib.Stdio
import Qmem.Lib.Scanf
import Qmem.Lib.Table
import Qmem.Lib.Hex
import Qmem.Lib.ExchangeSort
import Qmem.Lib.CInt
import Qmem.Lib.Ring
import Qmem.Lib.Deltas
import Qmem.Lib.Attempts
import Qmem.Lib.Assign
import Qmem.Lib.CharArray
import Qmem.Lib.HttpMessage
import Qmem.Builder
import Qmem.BuilderTokens
import Qmem.Emit
import Qmem.EmitParts
import Qmem.KeyText
import Qmem.ProcUtils
import Qmem.ProcContents
import Qmem.ProcCmdline
import Qmem.ProcLeftovers
import Qmem.ProcReads
import Qmem.Services.Procmem
import Qmem.Services.ProcmemDelta
import Qmem.Services.ProcmemTop
import Qmem.Services.ProcmemStatus
import Qmem.Services.PoolLoops
import Qmem.Services.ProceventRecent
import Qmem.Services.ProcmemInfo
import Qmem.Services.Procevent
import Qmem.Services.ProceventDiff
import Qmem.Services.Cpuload
import Qmem.Services.CpuloadTop
import Qmem.Services.CpuloadPercent
import Qmem.Services.Meminfo
import Qmem.Services.Slabinfo
import Qmem.Services.SlabinfoTop
import Qmem.Services.SlabinfoText
import Qmem.Services.Heapmon
import Qmem.Services.HeapmonRuns
import Qmem.Services.HeapmonDeltas
import Qmem.Services.HeapmonSmaps
import Qmem.Services.Memleak
import Qmem.Services.MemleakLists
import Qmem.Services.Vmstat
import Qmem.Services.Netstat
import Qmem.Services.Procstat
import Qmem.Services.PidStat
import Qmem.Services.CpuloadText
import Qmem.Services.ProcstatBlocked
import Qmem.Services.ProcstatThreads
import Qmem.Services.Sockstat
import Qmem.Services.SockstatCount
import Qmem.Services.SockstatOwners
import Qmem.Services.CounterDeltas
import Qmem.Services.MeminfoText
import Qmem.Services.VmstatText
import Qmem.Services.NetstatText
import Qmem.Services.Fdmon
import Qmem.Services.FdmonRuns
import Qmem.Services.FdmonTop
import Qmem.Services.FailedScans
import Qmem.Services.Commands
import Qmem.Services.LastSample
import Qmem.Services.All
import Qmem.Daemon.ServiceManager
import Qmem.Daemon.ServiceLookup
import Qmem.Daemon.PluginLoader
import Qmem.Daemon.PluginSteps
import Qmem.Daemon.PluginNames
import Qmem.Daemon.PluginLookup
import Qmem.Daemon.SnapshotAll
import Qmem.Daemon.Ringbuffer
import Qmem.Daemon.History
import Qmem.Daemon.PushFails
import Qmem.Daemon.Cycle
import Qmem.Daemon.CycleHistory
import Qmem.Daemon.Serve
import Qmem.Daemon.PluginRegistry
import Qmem.Daemon.PluginCapacity
import Qmem.Daemon.PluginTable
import Qmem.Daemon.PluginWatch
import Qmem.Daemon.PluginFollow
import Qmem.Daemon.Signals
import Qmem.Daemon.Main
import Qmem.Daemon.Lives
import Qmem.Protocol
import Qmem.Daemon.IpcServer
import Qmem.Daemon.IpcFrames
import Qmem.Daemon.ServerThread
import Qmem.Daemon.Config
import Qmem.Daemon.ConfigFile
import Qmem.Daemon.ConfigComments
import Qmem.Daemon.SocketPath
import Qmem.Daemon.ConfigArgs
import Qmem.Daemon.ConfigOptions
import Qmem.Daemon.ConfigSafe
import Qmem.Daemon.ConfigServices
import Qmem.Daemon.ConfigThresholds
import Qmem.Web.HttpServer
import Qmem.Web.HttpPieces
import Qmem.Web.HttpRequestLine
import Qmem.Web.HttpAnswer
import Qmem.Cli.Client
import Qmem.Cli.ClientReply
import Qmem.Cli.HistoryRequest
import Qmem.Cli.KeyScan
import Qmem.Cli.Json
import Qmem.Cli.Document
import Qmem.Cli.Top
import Qmem.Cli.Sockets
import Qmem.Cli.Status
import Qmem.Cli.StatusNumbers
import Qmem.Cli.StatusFile
import Qmem.Cli.Memleak
import Qmem.Cli.Fdmon
import Qmem.Cli.Reports
import Qmem.Cli.CommandText
import Qmem.Cli.ValueText
import Qmem.Cli.JsonSection
import Qmem.Cli.ValueUnique
import Qmem.Cli.SectionShown
import Qmem.Cli.Services
import Qmem.Cli.Session
