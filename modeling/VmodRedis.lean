import VmodRedis.Lib.TransitionSystem
import VmodRedis.Lib.Buckets
import VmodRedis.Lib.LastValue
import VmodRedis.Lib.Monitor
import VmodRedis.Lib.Pipelining
import VmodRedis.Lib.LockOrder
import VmodRedis.Lib.Ownership
import VmodRedis.Lib.RoundRobin
import VmodRedis.Lib.Scanning
import VmodRedis.Lib.Memory
import VmodRedis.Lib.Crc
import VmodRedis.Lib.BlockStream
import VmodRedis.Lib.Sha1
import VmodRedis.Lib.Json
import VmodRedis.Lib.JsonTree
import VmodRedis.CStrings
import VmodRedis.Replies
import VmodRedis.Database
import VmodRedis.Connections
import VmodRedis.Registry
import VmodRedis.Planning
import VmodRedis.PlanScans
import VmodRedis.PlanOrder
import VmodRedis.PlanRotation
import VmodRedis.SentinelUpdate
import VmodRedis.Discovery
import VmodRedis.ShardReplies
import VmodRedis.DiscoveryTopology
import VmodRedis.SharedPool
import VmodRedis.SharedPoolWorkers
import VmodRedis.SharedPoolWakeups
import VmodRedis.SharedPoolClock
import VmodRedis.RegistryInvariant
import VmodRedis.SentinelReport
import VmodRedis.SentinelInventory
import VmodRedis.SentinelHealth
import VmodRedis.SentinelLoop
import VmodRedis.SentinelEvents
import VmodRedis.SicknessFlags
import VmodRedis.SicknessRuns
import VmodRedis.DiscoveryWalk
import VmodRedis.DiscoveryHarm
import VmodRedis.Execution
import VmodRedis.Slots
import VmodRedis.ClusterExecution
import VmodRedis.DatabaseCreation
import VmodRedis.ExecutionTrace
import VmodRedis.RetryBounds
import VmodRedis.WorldInvariant
import VmodRedis.RedirectionRouting
import VmodRedis.RedirectionTexts
import VmodRedis.EndpointAgreement
import VmodRedis.PlanExhaustion
import VmodRedis.PlanSizes
import VmodRedis.PrivateContexts
import VmodRedis.PrivateReuse
import VmodRedis.ScriptFallback
import VmodRedis.ReplyOrder
import VmodRedis.TaskCommands
import VmodRedis.TaskReplies
import VmodRedis.ArrayReplies
import VmodRedis.ReplySerialization
import VmodRedis.SerializedReplies
import VmodRedis.WorkspaceCopies
import VmodRedis.TaskInvariant
import VmodRedis.ReplyOwnership
import VmodRedis.TaskOwnership
import VmodRedis.LockPaths
import VmodRedis.LockEntryPoints
import VmodRedis.ConnectionTally
import VmodRedis.ConnectionAccounting
import VmodRedis.RejectedServers
import VmodRedis.PoolBookkeeping
import VmodRedis.CommandAccounting
import VmodRedis.HashTags
import VmodRedis.SlotPolynomial
import VmodRedis.SentinelLocations
import VmodRedis.LifecycleProgress
import VmodRedis.ColdEvent
import VmodRedis.ConnectionVersions
import VmodRedis.LocationGrammar
import VmodRedis.Sha1Transform
import VmodRedis.Sha1Stream
import VmodRedis.ScriptDigest
import VmodRedis.WeightRules
import VmodRedis.RuleLines
import VmodRedis.Configuration
import VmodRedis.StatsViews
import VmodRedis.ClusterCommands
