import AsterVec.LittleEndian
import AsterVec.ByteBuffer
import AsterVec.IdTypes
import AsterVec.PagedVectorStorage
import AsterVec.PagedRecords
import AsterVec.PagedMetadata
import AsterVec.PagedLayout
import AsterVec.PagedLocations
import AsterVec.PagedAllocation
import AsterVec.PagedBuffers
import AsterVec.PagedCache
import AsterVec.PagedEviction
import AsterVec.PagedContents
import AsterVec.PagedWrites
import AsterVec.PagedReads
import AsterVec.PagedStores
import AsterVec.PagedLoad
import AsterVec.PagedIsolation
import AsterVec.PagedReload
import AsterVec.PagedSessions
import AsterVec.PagedThreads
import AsterVec.PagedConcurrency
import AsterVec.PagedInterleaving
import AsterVec.PagedCrowds
import AsterVec.OpLogRecords
import AsterVec.OpLog
import AsterVec.OpLogHistory
import AsterVec.Programs
import AsterVec.OpLogSessions
import AsterVec.OpLogCheckpoints
import AsterVec.OpLogScan
import AsterVec.OpLogTruncation
import AsterVec.Crc32
import AsterVec.PagedFaults
import AsterVec.PagedDurability
import AsterVec.BigEndian
import AsterVec.PointIds
import AsterVec.PointIdCodec
import AsterVec.KeyMap
import AsterVec.KeyMapRuns
import AsterVec.KeyMapHits
import AsterVec.DensePayload
import AsterVec.DenseHistories
import AsterVec.DenseReached
import AsterVec.DenseContents
import AsterVec.DenseMaps
import AsterVec.DenseTraffic
import AsterVec.DenseEffects
import AsterVec.DenseSerial
import AsterVec.DenseFilter
import AsterVec.DenseScan
import AsterVec.DenseMatches
import AsterVec.DenseHits
import AsterVec.BloomFilter
import AsterVec.DenseGet
import AsterVec.DenseSearch
import AsterVec.DenseSearching
import AsterVec.StoreGenerations
import AsterVec.OpenFailures
import AsterVec.Machines
import AsterVec.EntryPoint
import AsterVec.EdgeCoherence
import AsterVec.HttpBulkBuild
import AsterVec.HttpRoutes
import AsterVec.PagedCacheTable
import AsterVec.PagedBatchReads
import AsterVec.PagedBounds
import AsterVec.PagedRuns
import AsterVec.PagedGrowth
import AsterVec.PagedOverwrites
import AsterVec.HttpFiles
import AsterVec.HttpLifecycle
import AsterVec.Loading
import AsterVec.IndexMetadata
import AsterVec.IndexLoading
import AsterVec.IndexRoundTrip
import AsterVec.Checksums
import AsterVec.BulkBuildSteps
import AsterVec.BulkBuildFaults
import AsterVec.ScalarQuantization
import AsterVec.MetadataFilter
import AsterVec.FilterMeaning
import AsterVec.FilterGrammar
import AsterVec.LayerSearch
import AsterVec.ExactSearch
import AsterVec.PagedArrays
import AsterVec.PagedSections
import AsterVec.LayerResults
import AsterVec.IndexGraph
import AsterVec.IndexSelection
import AsterVec.NeighborHeuristic
import AsterVec.IndexLinks
import AsterVec.IndexInserts
import AsterVec.IndexBuilds
import AsterVec.DegreeBounds
import AsterVec.Navigation
import AsterVec.PagedMirrors
import AsterVec.LayerModes
import AsterVec.DenseVersions
import AsterVec.DenseRecovery
import AsterVec.PayloadWrites
import AsterVec.PayloadRuns
import AsterVec.HttpInsertBatch
import AsterVec.SortedRuns
import AsterVec.RnnDescent
import AsterVec.RnnDescentOutput
import AsterVec.LinearProbing
import AsterVec.IntrusiveList
import AsterVec.EdgeShard
import AsterVec.EdgeShardEntries
import AsterVec.EdgeCache
import AsterVec.RnnSampling
import AsterVec.Stamps
import AsterVec.VisitedSet
import AsterVec.GreedyDescent
import AsterVec.PagedBufferCap
import AsterVec.PagedBufferSteps
import AsterVec.IndexEnds
import AsterVec.PagedDeleteFlags
import AsterVec.VectorStorages
import AsterVec.StorageInserts
import AsterVec.StorageRuns
import AsterVec.StorageKinds
import AsterVec.LoggedPrograms
import AsterVec.DenseLifetimes
import AsterVec.RowOwnership
import AsterVec.PayloadOrigins
import AsterVec.PayloadPrivacy
import AsterVec.NothingLost
import AsterVec.LiveCounts
import AsterVec.LoggedSearches
import AsterVec.KeyedStores
import AsterVec.KeyedSearches
