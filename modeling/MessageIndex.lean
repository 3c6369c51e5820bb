import MessageIndex.Logging.Session
import MessageIndex.Search.ProbeData
import MessageIndex.Settings.Document
import MessageIndex.Workspace
import MessageIndex.Proofs.ByteOrder
import MessageIndex.Proofs.KeyCodec
import MessageIndex.Proofs.KeyOrder
import MessageIndex.Proofs.KeyImage
import MessageIndex.Proofs.PartitionRange
import MessageIndex.Proofs.EntryCodec
import MessageIndex.Proofs.RangeRead
import MessageIndex.Proofs.ReusedBuffers
import MessageIndex.Proofs.Journal
import MessageIndex.Proofs.Footprint
import MessageIndex.Proofs.Isolation
import MessageIndex.Proofs.Interleaving
import MessageIndex.Proofs.PointRead
import MessageIndex.Proofs.Integrity
import MessageIndex.Proofs.RangeByPoints
import MessageIndex.Proofs.Replay
import MessageIndex.Proofs.SearchAgreement
import MessageIndex.Proofs.StoredSearch
import MessageIndex.Proofs.BufferRuns
import MessageIndex.Proofs.CorruptionReports
import MessageIndex.Proofs.EntryImage
import MessageIndex.Proofs.VisiblePrefix
import MessageIndex.Proofs.LogSetUp
import MessageIndex.Proofs.SearchGoal
import MessageIndex.Proofs.LogCalls
import MessageIndex.Proofs.LogSinks
import MessageIndex.Proofs.WrittenRecords
import MessageIndex.Proofs.NearestSearch
import MessageIndex.Proofs.TrailingHoles
import MessageIndex.Proofs.Paging
import MessageIndex.Proofs.LastWrite
import MessageIndex.Proofs.RecordedAnswers
import MessageIndex.Proofs.ProbeFailures
import MessageIndex.Proofs.UnboundedSearch
import MessageIndex.Proofs.FilterSource
import MessageIndex.Proofs.ValueGrammar
import MessageIndex.Proofs.SkippedValues
import MessageIndex.Proofs.FaithfulReaders
import MessageIndex.Proofs.RecordMembers
import MessageIndex.Proofs.RecordLayout
