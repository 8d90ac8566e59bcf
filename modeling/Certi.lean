import Certi.Lib.Runs
import Certi.Lib.Keyed
import Certi.Lib.Memo
import Certi.Lib.Sweep
import Certi.Lib.RemoveIf
import Certi.Lib.Forest
import Certi.Lib.First
import Certi.Lib.Regroup
import Certi.Lib.Collect
import Certi.Lib.Course
import Certi.LibCERTI.Types
import Certi.LibCERTI.ObjectModel
import Certi.LibCERTI.Ownership
import Certi.LibCERTI.OwnershipInvariant
import Certi.LibCERTI.BroadcastList
import Certi.LibCERTI.Region
import Certi.LibCERTI.RootObject
import Certi.LibCERTI.ClassBroadcast
import Certi.LibCERTI.Declarations
import Certi.LibCERTI.Instances
import Certi.LibCERTI.Departure
import Certi.LibCERTI.Discovery
import Certi.LibCERTI.Removal
import Certi.LibCERTI.LBTSRuns
import Certi.LibCERTI.Killing
import Certi.RTIG.Federation
import Certi.RTIG.Mom
import Certi.RTIG.MomArguments
import Certi.RTIG.RegionRuns
import Certi.RTIG.NameRuns
import Certi.RTIG.RegionRegistrations
import Certi.RTIG.Dating
import Certi.LibCERTI.FomCompatibility
import Certi.LibCERTI.FomInheritance
import Certi.LibCERTI.DataTypes
import Certi.RTIG.Run
import Certi.RTIG.Frames
import Certi.RTIG.Answers
import Certi.RTIG.OwnershipRuns
import Certi.RTIG.HandleHygiene
import Certi.RTIG.Synchronization
import Certi.RTIG.Registering
import Certi.RTIG.Saving
import Certi.RTIG.Discovery
import Certi.RTIG.Removal
import Certi.LibCERTI.SocketServer
import Certi.RTIA.Delivery
import Certi.RTIA.Stranded
import Certi.RTIA.Requests
import Certi.RTIA.Lookahead
import Certi.RTIA.Published
import Certi.LibCERTI.FomMerge
import Certi.RTIG.Joining
import Certi.LibCERTI.Clocks
import Certi.LibCERTI.RingBuffer
import Certi.LibCERTI.RingRuns
import Certi.LibCERTI.Envelope
import Certi.LibCERTI.EnvelopeTrips
import Certi.RTIG.Regulators
import Certi.System.Agreement
import Certi.LibHLA.RoundTrip
import Certi.LibHLA.Bounds
import Certi.LibHLA.MsgBuffer
import Certi.LibHLA.Codecs
import Certi.RTIG.OwnershipTurns
import Certi.RTIG.OwnershipAtomicity
import Certi.RTIG.OwnershipMessages
import Certi.RTIG.OwnershipNotices
import Certi.RTIG.DivestitureOffers
import Certi.RTIG.AcquisitionOrder
import Certi.System.Copies
import Certi.System.Labels
import Certi.RTIG.RestoreRuns
import Certi.RTIG.ValueSizes
import Certi.RTIG.Trees
import Certi.RTIG.Growth
import Certi.LibCERTI.SecurityLevels
import Certi.LibCERTI.Audience
import Certi.Lib.Pairing
import Certi.LibCERTI.InteractionRouting
import Certi.LibCERTI.UpdateRouting
import Certi.RTIG.Routing
import Certi.RTIG.ValueRequests
import Certi.RTIG.MomValues
import Certi.LibRTI.VariantRecord
import Certi.LibRTI.Elements
import Certi.LibRTI.Copies
import Certi.RTIG.Access
import Certi.LibRTI.LayoutRules
import Certi.RTIA.QueueRuns
import Certi.RTIA.Communications
import Certi.LibCERTI.Subscriptions
import Certi.RTIG.Overlaps
import Certi.LibRTI.IntegerTime
import Certi.LibRTI.Handles
import Certi.LibCERTI.ClassRegistry
import Certi.RTIG.MomOwnership
import Certi.Lib.Tables
import Certi.RTIG.MomReports
import Certi.System.TimeSafety
import Certi.System.Executions
import Certi.LibRTI.DecodingTrips
import Certi.LibRTI.DecodingBounds
import Certi.System.Executions
import Certi.LibRTI.DecodingTrips
import Certi.LibRTI.DecodingBounds
