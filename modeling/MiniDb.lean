import MiniDb.Lib.Dict
import MiniDb.Lib.Steps
import MiniDb.Lib.Json
import MiniDb.Lib.JsonRoundTrip
import MiniDb.Lib.JsonColon
import MiniDb.Lib.PyJson
import MiniDb.Lib.FileSystem
import MiniDb.Lib.Voting
import MiniDb.Lib.RateBound
import MiniDb.Lib.Scan
import MiniDb.Lib.Newest
import MiniDb.Lib.Expiring
import MiniDb.Lib.Text
import MiniDb.Lib.EitherNewer
import MiniDb.Lib.HashTree
import MiniDb.Lib.LogMatching
import MiniDb.Lib.Majority
import MiniDb.Config
import MiniDb.Network.Protocol
import MiniDb.Network.Framing
import MiniDb.Network.Server
import MiniDb.Network.Session
import MiniDb.Network.Client
import MiniDb.Storage.KvStore
import MiniDb.Storage.StoreMap
import MiniDb.Storage.Aof
import MiniDb.Storage.AofText
import MiniDb.Storage.TornLog
import MiniDb.Storage.AofReplay
import MiniDb.Storage.Snapshot
import MiniDb.Storage.SnapshotFiles
import MiniDb.Storage.CompactFailure
import MiniDb.Storage.SnapshotJson
import MiniDb.Cluster.Election
import MiniDb.Cluster.ElectionRole
import MiniDb.Cluster.AppendEntries
import MiniDb.Cluster.LeaderLog
import MiniDb.Cluster.CommitOrder
import MiniDb.Node.Recovery
import MiniDb.Node.Maintenance
import MiniDb.Node.ClientPort
import MiniDb.Node.Admission
import MiniDb.Node.Typed
import MiniDb.Node.CrashRecovery
import MiniDb.Node.Crashes
import MiniDb.Node.Restart
import MiniDb.Node.ReplayLines
import MiniDb.Sharding.ConsistentHash
import MiniDb.Sharding.RingOrder
import MiniDb.Sharding.Preference
import MiniDb.Sharding.Clockwise
import MiniDb.Cluster.Membership
import MiniDb.Cluster.Gossip
import MiniDb.Cluster.LocalEntry
import MiniDb.Cluster.Revival
import MiniDb.Cluster.Records
import MiniDb.Cluster.Wire
import MiniDb.Cluster.FailureDetector
import MiniDb.Sharding.Topology
import MiniDb.Sharding.Migration
import MiniDb.Sharding.Cancel
import MiniDb.Node.State
import MiniDb.Node.Replica
import MiniDb.Node.Merge
import MiniDb.Node.Migration
import MiniDb.Node.MigrationSteps
import MiniDb.Cluster.ReadCoordinator
import MiniDb.Cluster.Replication
import MiniDb.Cluster.Replicate
import MiniDb.Node.Read
import MiniDb.Node.MigrationOutcome
import MiniDb.Node.MigrationRace
import MiniDb.Node.MigrationAuthority
import MiniDb.Node.Write
import MiniDb.Node.Forward
import MiniDb.Cluster.System
import MiniDb.Cluster.Effects
import MiniDb.Cluster.ElectionSafety
import MiniDb.Cluster.Timers
import MiniDb.Cluster.History
import MiniDb.Cluster.Tasks
import MiniDb.Cluster.QuorumOverlap
import MiniDb.Cluster.QuorumRead
import MiniDb.Cluster.CommitExact
import MiniDb.Cluster.Issued
import MiniDb.Cluster.Applied
import MiniDb.Cluster.Counted
import MiniDb.Cluster.TtlFree
import MiniDb.Cluster.LeaderOrder
import MiniDb.Cluster.SingleLeader
import MiniDb.Cluster.Healthy
import MiniDb.Cluster.ReadAfterWrite
import MiniDb.Cluster.Durable
import MiniDb.Cluster.Listing
import MiniDb.Cluster.Stores
import MiniDb.Cluster.StrongReads
import MiniDb.Cluster.Deletes
import MiniDb.Cluster.RepairDecision
import MiniDb.Cluster.ReadRepair
import MiniDb.Repair.Merkle
import MiniDb.Repair.MerkleRoot
import MiniDb.Repair.MerkleCompare
import MiniDb.Repair.MerkleBuckets
import MiniDb.Repair.MerkleShape
import MiniDb.Repair.AntiEntropy
import MiniDb.Repair.Convergence
import MiniDb.Repair.VersionVector
import MiniDb.Chaos.RateLimiter
import MiniDb.Chaos.TokenBucket
import MiniDb.Chaos.SlidingWindow
import MiniDb.Chaos.AdaptiveRate
import MiniDb.Chaos.FaultInjector
import MiniDb.Cli
