import Yadcc.Lib.UnorderedMap
import Yadcc.Lib.Transition
import Yadcc.Lib.Checked
import Yadcc.Lib.Shell
import Yadcc.Common.Service
import Yadcc.Scheduler.TaskDispatcher
import Yadcc.Scheduler.TaskDispatcherInvariant
import Yadcc.Scheduler.Zombies
import Yadcc.Scheduler.SchedulerService
import Yadcc.Scheduler.Heartbeat
import Yadcc.Client.CommandLine
import Yadcc.Client.CompilerArgs
import Yadcc.Cache.InMemoryCache
import Yadcc.Cache.CacheLists
import Yadcc.Cache.Eviction
import Yadcc.Cache.InMemoryCacheInvariant
import Yadcc.Cache.JustStored
import Yadcc.Cache.AdaptiveTarget
import Yadcc.Cache.CacheService
import Yadcc.Cache.CosCacheEngine
import Yadcc.Daemon.Cloud.ExecutionEngine
import Yadcc.Daemon.Cloud.ProcessExit
import Yadcc.Daemon.Local.DistributedTaskDispatcher
import Yadcc.Daemon.SharedServant
import Yadcc.Daemon.Cloud.TaskCachability
import Yadcc.Daemon.Cloud.TaskSharing
import Yadcc.Daemon.ReferenceCounts
import Yadcc.Scheduler.Grants
import Yadcc.Daemon.Cloud.Signals
import Yadcc.Daemon.Survival
import Yadcc.Lib.Word
import Yadcc.Scheduler.Capacity
import Yadcc.Scheduler.ClusterStats
import Yadcc.Client.MultiChunk
import Yadcc.Client.OutputFiles
import Yadcc.Client.OutputStream
import Yadcc.Daemon.Local.MultiChunk
import Yadcc.Lib.Buffer
import Yadcc.Client.CompilationSaas
import Yadcc.Daemon.Cloud.RunningTasks
import Yadcc.Cache.BloomFilterGenerator
import Yadcc.Cache.FilterRebuild
import Yadcc.Cache.FetchBloomFilter
import Yadcc.Daemon.Local.DistributedCacheReader
import Yadcc.Daemon.Local.FilterLoads
import Yadcc.Daemon.CacheFormat
import Yadcc.Daemon.Cloud.RemoteTask
import Yadcc.Daemon.Local.CachedOutput
import Yadcc.Common.ConsistentHash
import Yadcc.Common.DiskCache
import Yadcc.Common.DiskCacheView
import Yadcc.Common.DiskCacheLoad
import Yadcc.Common.DiskCacheMap
import Yadcc.Common.DiskCacheReshard
import Yadcc.Scheduler.ServingTokens
import Yadcc.Common.ConsistentHashAdd
import Yadcc.Scheduler.Placement
import Yadcc.Daemon.Local.TaskOutcome
import Yadcc.Scheduler.WaitForStartingTask
import Yadcc.Scheduler.WaitForNewTask
import Yadcc.Daemon.Local.TaskRegistry
import Yadcc.Daemon.Local.WaitForTask
import Yadcc.Daemon.Local.AbortTimer
import Yadcc.Daemon.Local.KeepAliveTimer
import Yadcc.Client.RewriteFile
import Yadcc.Client.RewriteRuns
import Yadcc.Daemon.TaskDigest
import Yadcc.Daemon.TaskIdentity
import Yadcc.Common.DiskCacheThreads
import Yadcc.Common.DiskCachePurge
import Yadcc.Daemon.Local.RunningTaskKeeper
import Yadcc.Daemon.Local.GrantAccounts
import Yadcc.Daemon.Cluster
import Yadcc.Daemon.TaskReuse
import Yadcc.Lib.Calendar
import Yadcc.Client.PatchedPaths
import Yadcc.Daemon.Cloud.OutputPath
import Yadcc.Daemon.Local.ForgedMultiChunk
import Yadcc.Common.CacheDirs
import Yadcc.Common.Workspace
import Yadcc.Client.DaemonCall
import Yadcc.Client.ReadResponse
import Yadcc.Client.ResponseSegments
import Yadcc.Lib.Monitor
import Yadcc.Daemon.Local.LocalTaskMonitor
import Yadcc.Daemon.TaskQuota
import Yadcc.Lib.Json
import Yadcc.Client.WaitForCompilation
import Yadcc.Daemon.CompilationRoundTrip
import Yadcc.Client.Entry
import Yadcc.Client.Command
import Yadcc.Daemon.CompilerDigests
import Yadcc.Daemon.RemoteCompilation
