import OpenDDS.Guarantees.AckDeadlines
import OpenDDS.Guarantees.AddedRanges
import OpenDDS.Guarantees.AscendingRanges
import OpenDDS.Guarantees.BitmapDescription
import OpenDDS.Guarantees.BitmapInsertion
import OpenDDS.Guarantees.BlockedWriters
import OpenDDS.Guarantees.BufferEviction
import OpenDDS.Guarantees.BufferedResend
import OpenDDS.Guarantees.ByteStream
import OpenDDS.Guarantees.CoherentSets
import OpenDDS.Guarantees.CollectedData
import OpenDDS.Guarantees.ContentFilter
import OpenDDS.Guarantees.DataReaderSelection
import OpenDDS.Guarantees.DecodingSafety
import OpenDDS.Guarantees.DelayedDelivery
import OpenDDS.Guarantees.DropReporting
import OpenDDS.Guarantees.DuplicateFragments
import OpenDDS.Guarantees.DurableHistory
import OpenDDS.Guarantees.DurableReader
import OpenDDS.Guarantees.DurableRequests
import OpenDDS.Guarantees.ElementFates
import OpenDDS.Guarantees.EndpointMatching
import OpenDDS.Guarantees.ExclusiveOwnership
import OpenDDS.Guarantees.FileNames
import OpenDDS.Guarantees.FilterTrees
import OpenDDS.Guarantees.FragmentReassembly
import OpenDDS.Guarantees.FragmentRequests
import OpenDDS.Guarantees.GapEncoding
import OpenDDS.Guarantees.GapProcessing
import OpenDDS.Guarantees.GapSoundness
import OpenDDS.Guarantees.GenerationCounts
import OpenDDS.Guarantees.GroupCoherence
import OpenDDS.Guarantees.HeaderFormat
import OpenDDS.Guarantees.HeaderFragmentation
import OpenDDS.Guarantees.HistoryDepth
import OpenDDS.Guarantees.InOrderDelivery
import OpenDDS.Guarantees.InconsistentEndpoints
import OpenDDS.Guarantees.InlineGaps
import OpenDDS.Guarantees.InstanceIteration
import OpenDDS.Guarantees.InstanceLifecycle
import OpenDDS.Guarantees.LengthAccounting
import OpenDDS.Guarantees.LifespanExpiry
import OpenDDS.Guarantees.LikeMeaning
import OpenDDS.Guarantees.LinkReservations
import OpenDDS.Guarantees.LivelinessCounters
import OpenDDS.Guarantees.NackFragEntries
import OpenDDS.Guarantees.NackRequests
import OpenDDS.Guarantees.NextSample
import OpenDDS.Guarantees.NilHandle
import OpenDDS.Guarantees.OwnershipBookkeeping
import OpenDDS.Guarantees.PacketParsing
import OpenDDS.Guarantees.PacketSending
import OpenDDS.Guarantees.ParticipantAssociation
import OpenDDS.Guarantees.ParticipantTable
import OpenDDS.Guarantees.PartitionSymmetry
import OpenDDS.Guarantees.PolicyReports
import OpenDDS.Guarantees.PreparedPackets
import OpenDDS.Guarantees.QosMutability
import OpenDDS.Guarantees.RangeLoops
import OpenDDS.Guarantees.ReadAccess
import OpenDDS.Guarantees.ReceiveChunking
import OpenDDS.Guarantees.ReconnectBoundary
import OpenDDS.Guarantees.RequestExpiry
import OpenDDS.Guarantees.RequestSuppression
import OpenDDS.Guarantees.ResourceEviction
import OpenDDS.Guarantees.RtpsFragments
import OpenDDS.Guarantees.SamplePlacement
import OpenDDS.Guarantees.SampleRanks
import OpenDDS.Guarantees.SampleRetention
import OpenDDS.Guarantees.SendOrder
import OpenDDS.Guarantees.SentStream
import OpenDDS.Guarantees.SequenceBounds
import OpenDDS.Guarantees.SequenceSet
import OpenDDS.Guarantees.SerializerRoundTrip
import OpenDDS.Guarantees.SourceOrder
import OpenDDS.Guarantees.StoreSafety
import OpenDDS.Guarantees.SubmessageFraming
import OpenDDS.Guarantees.SuspendedPublication
import OpenDDS.Guarantees.TakeAsRead
import OpenDDS.Guarantees.TopicReferences
import OpenDDS.Guarantees.TruthfulAcks
import OpenDDS.Guarantees.UnrelatedDrops
import OpenDDS.Guarantees.WholeSamples
