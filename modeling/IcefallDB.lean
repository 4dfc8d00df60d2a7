import IcefallDB.AggCache
import IcefallDB.AggCache.Extrema
import IcefallDB.AggCache.Grouped
import IcefallDB.AggCache.Merging
import IcefallDB.ColumnBounds
import IcefallDB.CommitDelta
import IcefallDB.Compactor
import IcefallDB.Compactor.Cleanup
import IcefallDB.Compactor.Frame
import IcefallDB.Compactor.Rewrite
import IcefallDB.Compactor.Rows
import IcefallDB.Compactor.Streaming
import IcefallDB.Doctor.History
import IcefallDB.FooterStats
import IcefallDB.FooterStats.Columns
import IcefallDB.FooterStats.Rows
import IcefallDB.Gc
import IcefallDB.IcebergExport
import IcefallDB.IcebergExport.Bounds
import IcefallDB.IcebergExport.LiveRows
import IcefallDB.IcebergSchema
import IcefallDB.IndexBinary
import IcefallDB.IndexBinary.RoundTrip
import IcefallDB.IndexDelta
import IcefallDB.IndexSelector
import IcefallDB.IndexSelector.Learned
import IcefallDB.Lib.Accumulation
import IcefallDB.Lib.BinarySearch
import IcefallDB.Lib.Buffers
import IcefallDB.Lib.Conversion
import IcefallDB.Lib.CrashHoare
import IcefallDB.Lib.Digits
import IcefallDB.Lib.Family
import IcefallDB.Lib.FloatFormat
import IcefallDB.Lib.Groups
import IcefallDB.Lib.HashChain
import IcefallDB.Lib.Json
import IcefallDB.Lib.JsonCodec
import IcefallDB.Lib.JsonFloats
import IcefallDB.Lib.JsonText
import IcefallDB.Lib.Limits
import IcefallDB.Lib.Lru
import IcefallDB.Lib.Moments
import IcefallDB.Lib.Options
import IcefallDB.Lib.Permits
import IcefallDB.Lib.Ranges
import IcefallDB.Lib.Rewrite
import IcefallDB.Lib.RowSelection
import IcefallDB.Lib.Run
import IcefallDB.Lib.Script
import IcefallDB.Lib.Sha256
import IcefallDB.Lib.Simulation
import IcefallDB.Lib.Skipping
import IcefallDB.Lib.Trace
import IcefallDB.Locate
import IcefallDB.Locate.Agreement
import IcefallDB.Locate.Kinds
import IcefallDB.MetaCache
import IcefallDB.Metadata.Checksum
import IcefallDB.Metadata.Codec
import IcefallDB.Metadata.FieldIds
import IcefallDB.Metadata.Survival
import IcefallDB.Metadata.Types
import IcefallDB.MetadataAggregate
import IcefallDB.MetadataAggregate.Answers
import IcefallDB.MetadataAggregate.Coverage
import IcefallDB.MetadataAggregate.FilterStatistics
import IcefallDB.MetadataAggregate.Filtered
import IcefallDB.MetadataAggregate.FilteredAnswers
import IcefallDB.MetadataAggregate.GroupBy
import IcefallDB.MetadataAggregate.GroupSources
import IcefallDB.MetadataAggregate.Grouped
import IcefallDB.MetadataAggregate.Retraction
import IcefallDB.MetadataAggregate.Stack
import IcefallDB.MetadataAggregate.StackAnswers
import IcefallDB.MetadataAggregate.Stale
import IcefallDB.MutationWal
import IcefallDB.MutationWal.Fold
import IcefallDB.MutationWal.Heal
import IcefallDB.MutationWal.Log
import IcefallDB.Mutators
import IcefallDB.Mutators.Serial
import IcefallDB.PlanUpdate
import IcefallDB.Provider
import IcefallDB.Provider.TinyTable
import IcefallDB.Pruning
import IcefallDB.Pruning.Rows
import IcefallDB.Recovery
import IcefallDB.Recovery.Apply
import IcefallDB.ResultCache
import IcefallDB.RowIdPushdown
import IcefallDB.RowIdPushdown.Rows
import IcefallDB.RowIdSegments
import IcefallDB.RowIndex
import IcefallDB.RowIndex.Codec
import IcefallDB.RowIndex.Derive
import IcefallDB.RowIndex.Malformed
import IcefallDB.RowIndex.MmapBase
import IcefallDB.RowIndex.Relocations
import IcefallDB.RowIndex.Segments
import IcefallDB.ScanExec
import IcefallDB.ScanExec.Offsets
import IcefallDB.ScanOrdering
import IcefallDB.ScanPaths
import IcefallDB.ScanSelection
import IcefallDB.ScanSelection.Cover
import IcefallDB.ScanStatistics
import IcefallDB.ScanStatistics.Exact
import IcefallDB.SimplifyCastPredicates
import IcefallDB.SimplifyCastPredicates.Truth
import IcefallDB.SparseReads
import IcefallDB.SqlInsert
import IcefallDB.Storage
import IcefallDB.Storage.Lock
import IcefallDB.Storage.Path
import IcefallDB.StreamingGroupBy
import IcefallDB.StreamingGroupBy.Answers
import IcefallDB.Table.Action
import IcefallDB.Table.Chain
import IcefallDB.Table.Contents
import IcefallDB.Table.Deletions
import IcefallDB.Table.Files
import IcefallDB.Table.History
import IcefallDB.Table.Ingest
import IcefallDB.Table.Open
import IcefallDB.Table.Refinement
import IcefallDB.Table.Represents
import IcefallDB.Table.RowCounts
import IcefallDB.Table.RowCounts.Commits
import IcefallDB.Table.RowCounts.Compactions
import IcefallDB.Table.RowCounts.Mutations
import IcefallDB.Table.RowCounts.Runs
import IcefallDB.Table.RowCounts.Steps
import IcefallDB.Table.Snapshot
import IcefallDB.Table.SnapshotReads
import IcefallDB.Transaction
import IcefallDB.Transaction.History
import IcefallDB.TypeStrings
import IcefallDB.TypeStrings.Grammar
import IcefallDB.TypeStrings.Parsing
import IcefallDB.TypeStrings.Printing
import IcefallDB.Wal
import IcefallDB.Wal.History
import IcefallDB.Writer
import IcefallDB.Writer.Agreement
import IcefallDB.Writer.Append
import IcefallDB.Writer.Cleanup
import IcefallDB.Writer.Failure
import IcefallDB.Writer.Frame
import IcefallDB.Writer.Load
import IcefallDB.Writer.Mutate
import IcefallDB.Writer.Partition
import IcefallDB.Writer.Planning
import IcefallDB.Writer.Represents
