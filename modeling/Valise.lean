import Valise.Library.Outcome
import Valise.Library.Wire
import Valise.Format
import Valise.Toc
import Valise.TocIo
import Valise.Recovery
import Valise.CommitBytes
import Valise.CrashAtomicity
import Valise.Segment
import Valise.ScanSelection
import Valise.AbandonedCommits
import Valise.Library.SortedTable
import Valise.Library.Caching
import Valise.Library.Chain
import Valise.Postings
import Valise.TextState
import Valise.TextFlush
import Valise.TextAnswers
import Valise.TextFlushFacts
import Valise.TextRuns
import Valise.TextMirror
import Valise.TermIds
import Valise.TextNewest
import Valise.Library.Command
import Valise.Library.DeltaTable
import Valise.CatalogRows
import Valise.CodecParams
import Valise.Library.Columns
import Valise.FrameColumns
import Valise.SegmentStore
import Valise.Engine
import Valise.Commit
import Valise.OpenState
import Valise.StoredCatalog
import Valise.CatalogSteps
import Valise.Changes
import Valise.SoundHandle
import Valise.CommitChanges
import Valise.CatalogRuns
import Valise.GroupFsync
import Valise.SegmentReads
import Valise.WrittenSegments
import Valise.Reopening
import Valise.FileImage
import Valise.PayloadChanges
import Valise.PayloadRuns
import Valise.VectorChanges
import Valise.VectorRuns
import Valise.DamagedSegments
import Valise.Library.Selection
import Valise.VectorSearch
import Valise.SearchHits
import Valise.VectorHits
import Valise.DatabaseRegistry
import Valise.Compaction
import Valise.StoreEngine
import Valise.Identity
import Valise.Writer
import Valise.StoreCalls
import Valise.WriterCalls
import Valise.RecordTracking
import Valise.RecordCommits
import Valise.StoredRecords
import Valise.WholeRecords
import Valise.IdentityRebuild
import Valise.IdentityMirror
import Valise.KeyedStore
import Valise.KeyedRuns
import Valise.StoreHandles
import Valise.WriterLock
import Valise.SchemaWatermark
import Valise.SchemaDocRuns
import Valise.TextBatch
import Valise.BulkRuns
import Valise.Bm25Scores
import Valise.OrderedRuns
import Valise.SchemaRestores
import Valise.DocStatsWire
import Valise.FilterWire
import Valise.PostingsWire
import Valise.CodecRegistration
import Valise.FrameCatalogSafety
import Valise.Library.CursorBounds
import Valise.TimeIndexWire
import Valise.TimeQueries
import Valise.Library.Calendar
import Valise.Library.MachineInts
import Valise.PartitionNames
import Valise.PartitionPeriods
import Valise.PartitionViews
import Valise.PartitionForgetting
import Valise.HeaderPeers
import Valise.Library.Binary32
import Valise.TopKSelection
import Valise.Library.BitFields
import Valise.Library.Lanes
import Valise.SlidingKernels
import Valise.PackedCodes
import Valise.WaterFill
import Valise.SketchScan
import Valise.TextCaches
import Valise.TextQueries
import Valise.TextSessions
import Valise.BudgetVotes
import Valise.TextBudgets
import Valise.BudgetedQueries
import Valise.BudgetAgreement
import Valise.Library.Hadamard
import Valise.PolarCodes
import Valise.CatalogCodec
import Valise.FooterConsensus
import Valise.IdAllocation
import Valise.Library.Sweeps
import Valise.Library.Butterflies
import Valise.BlockHadamard
import Valise.Library.FloatLanes
import Valise.FloatKernels
import Valise.VectorHadamard
import Valise.CodecParamsWire
import Valise.FooterReading
import Valise.UpqRows
import Valise.Library.ByteRegisters
import Valise.SketchKernels
import Valise.SignSketches
import Valise.CivilDates
import Valise.UpqPhases
import Valise.ArenaSessions
import Valise.Library.SearchedTable
import Valise.FrameIndex
import Valise.SetSimilarity
import Valise.Library.Tallies
import Valise.Fusion
import Valise.HybridQueries
import Valise.SearchFusion
import Valise.FilteredSearches
import Valise.TextBytesRuns
