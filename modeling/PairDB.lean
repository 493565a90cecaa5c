import PairDB.Infra.MachineInt
import PairDB.Infra.Bytes
import PairDB.Infra.Base64
import PairDB.Infra.Bits
import PairDB.Infra.Run
import PairDB.Infra.Concurrent
import PairDB.Infra.Contest
import PairDB.Infra.Crc32
import PairDB.Infra.Decimal
import PairDB.Infra.ExchangeSort
import PairDB.Infra.Heap
import PairDB.Infra.Json
import PairDB.Infra.JsonRoundtrip
import PairDB.Infra.JsonDecode
import PairDB.Infra.JsonScan
import PairDB.Infra.Linked
import PairDB.Infra.Map
import PairDB.Infra.MapSum
import PairDB.Infra.Newest
import PairDB.Infra.Quorum
import PairDB.Infra.Search
import PairDB.Infra.Ring
import PairDB.Model.VectorClock
import PairDB.Coordinator.Consistency
import PairDB.Coordinator.ConsistentHash
import PairDB.Coordinator.StorageClient
import PairDB.Coordinator.VectorClockOps
import PairDB.Coordinator.CoordinatorService
import PairDB.Coordinator.HintReplay
import PairDB.Coordinator.HintedHandoff
import PairDB.Coordinator.Routing
import PairDB.Coordinator.VectorClockService
import PairDB.Coordinator.WriteProtocol
import PairDB.Coordinator.Idempotency
import PairDB.Coordinator.KeyRange
import PairDB.Coordinator.MetadataStore
import PairDB.StorageNode.Streaming
import PairDB.Coordinator.NodeHandler
import PairDB.Coordinator.ReadRepair
import PairDB.Coordinator.RingWalk
import PairDB.Coordinator.TenantService
import PairDB.Coordinator.TopologyTurns
import PairDB.StorageNode.BloomFilter
import PairDB.StorageNode.Entry
import PairDB.StorageNode.Cache
import PairDB.StorageNode.Checksum
import PairDB.StorageNode.MemTable
import PairDB.StorageNode.CommitLog
import PairDB.StorageNode.CommitLogReplay
import PairDB.StorageNode.SSTable
import PairDB.StorageNode.SSTableRoundtrip
import PairDB.StorageNode.SSTableService
import PairDB.StorageNode.Compaction
import PairDB.StorageNode.CompactionScheduler
import PairDB.StorageNode.Validation
import PairDB.StorageNode.StorageService
import PairDB.StorageNode.Node
import PairDB.StorageNode.Concurrent
import PairDB.StorageNode.DiskManager
import PairDB.StorageNode.Handler
import PairDB.StorageNode.KWayMerge
import PairDB.StorageNode.Properties.Merge
import PairDB.StorageNode.Properties.UnreadableInput
import PairDB.StorageNode.Levels
import PairDB.StorageNode.LiveStreaming
import PairDB.StorageNode.RangeScan
import PairDB.StorageNode.SkipList
import PairDB.StorageNode.VectorClockService
import PairDB.StorageNode.WorkerPool
import PairDB.Causality
import PairDB.Coordinator.Properties.QuorumRead
import PairDB.Coordinator.Properties.AnsweredReads
import PairDB.Coordinator.Properties.AuthoritativeWrites
import PairDB.Coordinator.Properties.Hints
import PairDB.Coordinator.Properties.Membership
import PairDB.Coordinator.Properties.BootstrapHints
import PairDB.Coordinator.Properties.Placement
import PairDB.Coordinator.Properties.RingState
import PairDB.Coordinator.Properties.BootstrapWrites
import PairDB.Coordinator.Properties.CausalWrites
import PairDB.Coordinator.Properties.Conflicts
import PairDB.Coordinator.Properties.ConflictResolution
import PairDB.Coordinator.Properties.FailedAddition
import PairDB.Coordinator.Properties.HintDelivery
import PairDB.Coordinator.Properties.Idempotency
import PairDB.Coordinator.Properties.IdempotencyKeys
import PairDB.Coordinator.Properties.IssuedClocks
import PairDB.Coordinator.Properties.MergedRanges
import PairDB.Coordinator.Properties.MinimumNodes
import PairDB.Coordinator.Properties.MovedRanges
import PairDB.Coordinator.Properties.OwnStreams
import PairDB.Coordinator.Properties.PendingChanges
import PairDB.Coordinator.Properties.RequestAtomicity
import PairDB.Coordinator.Properties.RangeRecords
import PairDB.Coordinator.Properties.ReadRepair
import PairDB.Coordinator.Properties.ReplayedHints
import PairDB.Coordinator.Properties.StaleRefresh
import PairDB.Coordinator.Properties.TenantConfig
import PairDB.StorageNode.Properties.CacheAccounting
import PairDB.StorageNode.Properties.CompactionJobs
import PairDB.StorageNode.Properties.ReadLatest
import PairDB.StorageNode.Properties.Convergence
import PairDB.StorageNode.Properties.TableRoundtrip
import PairDB.StorageNode.Properties.FilteredLookup
import PairDB.StorageNode.Properties.DamagedTables
import PairDB.StorageNode.Properties.FileFormats
import PairDB.StorageNode.Properties.FlushOutcome
import PairDB.StorageNode.Properties.Interception
import PairDB.StorageNode.Properties.Interleaving
import PairDB.StorageNode.Properties.Levels
import PairDB.StorageNode.Properties.RangeScan
import PairDB.StorageNode.Properties.Recovery
import PairDB.StorageNode.Properties.SegmentOrder
import PairDB.StorageNode.Properties.SequenceNumbers
import PairDB.StorageNode.Properties.SkipListMap
import PairDB.StorageNode.Properties.WorkerPool
import PairDB.StorageNode.Properties.StoppedPool
import PairDB.StorageNode.Properties.TenantIsolation
import PairDB.StorageNode.Properties.TornAppends
