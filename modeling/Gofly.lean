import Gofly.AdaptiveLimit
import Gofly.ApiBreaking
import Gofly.ApiTypeRef
import Gofly.BreakerCalls
import Gofly.Broker
import Gofly.CacheTwins
import Gofly.ConfigManager
import Gofly.ConsistentHash
import Gofly.ContainerValues
import Gofly.DiscoveryChannels
import Gofly.ExporterDrain
import Gofly.GatewayDiscovery
import Gofly.GatewayGather
import Gofly.GatewayHealth
import Gofly.GatewayShadow
import Gofly.GatewayRoute
import Gofly.GatewayTarget
import Gofly.GoZeroTags
import Gofly.Hedger
import Gofly.IdempotencyIdentity
import Gofly.IdempotencyRelease
import Gofly.JwtKeyring
import Gofly.JwtTimes
import Gofly.KVExclusion
import Gofly.LlmCache
import Gofly.MemoryLocker
import Gofly.MigrationHistory
import Gofly.MuxCredit
import Gofly.MuxDelivery
import Gofly.MuxIdentity
import Gofly.MuxReassembly
import Gofly.OutboxAttempts
import Gofly.RedisStream
import Gofly.RpcPoolCounts
import Gofly.RuleDiff
import Gofly.RuleSet
import Gofly.RuleMerge
import Gofly.RuleRuntime
import Gofly.SagaRecord
import Gofly.SingleFlightRuns
import Gofly.SlidingWindow
import Gofly.Sse
import Gofly.TieredDelete
import Gofly.Tiered
import Gofly.TokenLimiter
import Gofly.WatchConverges
import Gofly.WebSocket
import Gofly.WeightedRoundRobin
