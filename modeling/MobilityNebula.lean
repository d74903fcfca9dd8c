import MobilityNebula.Aggregation.ArrayAggregation
import MobilityNebula.Aggregation.ExtremaStates
import MobilityNebula.Aggregation.MedianAggregation
import MobilityNebula.Aggregation.WindowAggregation
import MobilityNebula.Emit.EmittedChunks
import MobilityNebula.InputFormatters.BufferHistory
import MobilityNebula.InputFormatters.CSVSequenceNumbers
import MobilityNebula.InputFormatters.LongDelimiters
import MobilityNebula.InputFormatters.RowAlignment
import MobilityNebula.InputFormatters.StagedBufferLife
import MobilityNebula.Join.WindowJoin
import MobilityNebula.LegacyOptimizer.OriginsAtRunTime
import MobilityNebula.LegacyOptimizer.SchemaAgreement
import MobilityNebula.Memory.ChildBuffers
import MobilityNebula.Memory.Conservation
import MobilityNebula.Memory.MemoryLayout
import MobilityNebula.Memory.PoolDestruction
import MobilityNebula.Nautilus.FailedInsertions
import MobilityNebula.Nautilus.SharedPages
import MobilityNebula.QueryEngine.AddTaskOrDoNextTask
import MobilityNebula.QueryEngine.FormatterTasks
import MobilityNebula.QueryEngine.QueryCatalog
import MobilityNebula.QueryEngine.Shutdown
import MobilityNebula.QueryOptimizer.LowerToPhysicalNLJoin
import MobilityNebula.Sequencing.CanonicalLoop
import MobilityNebula.Sequencing.ChunkCompletion
import MobilityNebula.Sources.TCPSource
import MobilityNebula.SqlParser.QueryShape
import MobilityNebula.Watermark.EventTimeWatermarkAssigner
import MobilityNebula.Windows.HandlerInvariant
