import SentinelCpp.Enforced
import SentinelCpp.Param.Isolation
import SentinelCpp.Param.QpsLimit
import SentinelCpp.Slot.Conservation
import SentinelCpp.Slot.TagNode
import SentinelCpp.Slot.HalfOpen
import SentinelCpp.Slot.ParamThreads
import SentinelCpp.Slot.QpsBound
import SentinelCpp.Slot.ThreadLimit
import SentinelCpp.CircuitBreaker.Protocol
import SentinelCpp.CircuitBreaker.Tripping
import SentinelCpp.CircuitBreaker.Twins
import SentinelCpp.CircuitBreaker.CoolDown
import SentinelCpp.Slot.Probe
import SentinelCpp.CircuitBreaker.Interleaving
import SentinelCpp.CircuitBreaker.Reload
import SentinelCpp.Slot.BreakerRules
import SentinelCpp.Stat.Metrics
import SentinelCpp.Stat.TagClients
import SentinelCpp.Flow.Verdict
import SentinelCpp.Slot.NodeConfig
import SentinelCpp.Lib.SegmentedLog
import SentinelCpp.Stat.MetricItem
import SentinelCpp.Log.MetricSearcher
import SentinelCpp.Log.Lookup
import SentinelCpp.Log.Complete
import SentinelCpp.Log.Surviving
import SentinelCpp.Log.CachedPosition
import SentinelCpp.Log.FileOrder
import SentinelCpp.Log.NextFile
import SentinelCpp.Stat.Rollover
import SentinelCpp.Param.Accepted
import SentinelCpp.Log.WholeSeconds
import SentinelCpp.Log.ByResource
import SentinelCpp.Log.Retention
import SentinelCpp.Log.LineBreaks
import SentinelCpp.Param.SharedMetric
import SentinelCpp.Param.Accounting
import SentinelCpp.Param.SharedRules
import SentinelCpp.Param.MetricKeys
import SentinelCpp.Param.ExceptionItems
import SentinelCpp.Flow.Throttling
import SentinelCpp.System.Strictest
import SentinelCpp.Stat.CompletionRate
import SentinelCpp.Slot.AnyChain
import SentinelCpp.Lib.LruMap
import SentinelCpp.Param.CacheRuns
import SentinelCpp.Param.LeastRecent
import SentinelCpp.Lib.Ranking
import SentinelCpp.Param.TopValues
import SentinelCpp.Transport.CommandRequest
import SentinelCpp.Transport.HttpCommand
import SentinelCpp.Transport.FetchMetricLog
import SentinelCpp.Stat.BackwardClock
import SentinelCpp.Log.LocalDate
import SentinelCpp.Lib.Groups
import SentinelCpp.Log.MetricLogTask
import SentinelCpp.Transport.Dashboard
import SentinelCpp.Lib.Progress
import SentinelCpp.Log.Appender
import SentinelCpp.Log.Sessions
import SentinelCpp.Transport.EventLoop
import SentinelCpp.Lib.Threads
import SentinelCpp.Log.BlockLog
import SentinelCpp.Param.CacheThreads
import SentinelCpp.Param.CacheWaits
import SentinelCpp.Lib.TwoSlots
import SentinelCpp.Slot.Alike
import SentinelCpp.Stat.NodeClients
import SentinelCpp.System.CpuUsage
import SentinelCpp.Transport.ClusterNodes
