import VirtualChannels.Disk
import VirtualChannels.Formula.Cursor
import VirtualChannels.Formula.Parser
import VirtualChannels.Instance
import VirtualChannels.Library.Storage
import VirtualChannels.Recording.Records
import VirtualChannels.Recording.SinglePass
import VirtualChannels.Recording.Summary
import VirtualChannels.Proofs.Formula.Answers
import VirtualChannels.Proofs.Formula.Faults
import VirtualChannels.Proofs.Formula.Limits
import VirtualChannels.Proofs.Formula.Lookups
import VirtualChannels.Proofs.Formula.Noting
import VirtualChannels.Proofs.Formula.Progress
import VirtualChannels.Proofs.Formula.Splitting
import VirtualChannels.Proofs.Formula.Written
import VirtualChannels.Proofs.Instance.Attempts
import VirtualChannels.Proofs.Instance.Forgetting
import VirtualChannels.Proofs.Instance.Provenance
import VirtualChannels.Proofs.Instance.QuotedNames
import VirtualChannels.Proofs.Instance.Reapplying
import VirtualChannels.Proofs.Json.Bytes
import VirtualChannels.Proofs.Json.Readers
import VirtualChannels.Proofs.Json.RoundTrip
import VirtualChannels.Proofs.Library.Disks
import VirtualChannels.Proofs.Library.Documents
import VirtualChannels.Proofs.Library.FileSystem
import VirtualChannels.Proofs.Library.Histories
import VirtualChannels.Proofs.Library.Reloading
import VirtualChannels.Proofs.Library.Saving
import VirtualChannels.Proofs.Library.Searching
import VirtualChannels.Proofs.Library.SharedIds
import VirtualChannels.Proofs.Number.Bits
import VirtualChannels.Proofs.Number.Distances
import VirtualChannels.Proofs.Number.FirstMatch
import VirtualChannels.Proofs.Number.Nearest
import VirtualChannels.Proofs.Number.Parts
import VirtualChannels.Proofs.Number.ReadingBack
import VirtualChannels.Proofs.Number.WholeNumbers
import VirtualChannels.Proofs.Path.Joining
import VirtualChannels.Proofs.Recording.Agreement
import VirtualChannels.Proofs.Recording.Cancellation
import VirtualChannels.Proofs.Recording.Causality
import VirtualChannels.Proofs.Recording.ColumnsRead
import VirtualChannels.Proofs.Recording.DirectReading
import VirtualChannels.Proofs.Recording.FaultPositions
import VirtualChannels.Proofs.Recording.Merging
import VirtualChannels.Proofs.Recording.NearestRow
import VirtualChannels.Proofs.Recording.NearestSample
import VirtualChannels.Proofs.Recording.RowBounds
import VirtualChannels.Proofs.Recording.SampleStatistics
import VirtualChannels.Proofs.Recording.SinglePass
import VirtualChannels.Proofs.Recording.UniformSampling
import VirtualChannels.Proofs.Reference.Alignment
import VirtualChannels.Proofs.Reference.ExactShifts
import VirtualChannels.Proofs.Reference.Extraction
import VirtualChannels.Proofs.Reference.FixedPoint
import VirtualChannels.Proofs.Reference.FreshIdentifiers
import VirtualChannels.Proofs.Reference.Partition
import VirtualChannels.Proofs.Reference.PlainExpressions
import VirtualChannels.Proofs.Reference.Separated
import VirtualChannels.Proofs.Reference.SingleReference
import VirtualChannels.Proofs.Reference.WholeShifts
import VirtualChannels.Proofs.Reference.WrittenSuffixes
import VirtualChannels.Proofs.Settings.Location
import VirtualChannels.Proofs.Text.Matching
import VirtualChannels.Proofs.Text.Utf8
