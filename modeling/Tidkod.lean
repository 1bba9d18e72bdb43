import Tidkod.Lib.Rounding
import Tidkod.Lib.Streak
import Tidkod.Lib.TimedQueue
import Tidkod.Lib.Machine
import Tidkod.Protocol.Timecode
import Tidkod.Protocol.Clock
import Tidkod.Protocol.Timeline
import Tidkod.Protocol.Validity
import Tidkod.Protocol.Follower
import Tidkod.Protocol.ClockSteps
import Tidkod.Lib.BoundedRate
import Tidkod.Protocol.ClockEvidence
import Tidkod.Protocol.ClockUncertainty
import Tidkod.Protocol.Wire
import Tidkod.Protocol.FollowerSteps
import Tidkod.Protocol.FollowerSessions
import Tidkod.Protocol.FollowerOutput
import Tidkod.Protocol.Latching
import Tidkod.Protocol.PreClock
import Tidkod.Protocol.Tracking
import Tidkod.Lib.Proto3
import Tidkod.Protocol.Encoding
import Tidkod.Native.Network
import Tidkod.Native.LeaderSteps
import Tidkod.Native.LeaderIds
import Tidkod.Native.LeaderPublication
import Tidkod.Native.Generated
import Tidkod.Native.Agreement
import Tidkod.Native.Applying
import Tidkod.Protocol.HonestAcceptance
import Tidkod.Protocol.Motion
import Tidkod.Protocol.Alignment
import Tidkod.Lib.RecentRing
import Tidkod.Protocol.Probes
import Tidkod.Protocol.ProbeMatching
import Tidkod.Protocol.Quarantine
import Tidkod.Native.Evidence
import Tidkod.Protocol.Confirmation
import Tidkod.Lib.Bisection
import Tidkod.Protocol.OutputMotion
import Tidkod.Protocol.Boundary
import Tidkod.Protocol.FirstCrossing
import Tidkod.Protocol.FrameDeadlines
import Tidkod.Lib.Panics
import Tidkod.Protocol.CheckedTimeline
import Tidkod.Protocol.CheckedClock
import Tidkod.Protocol.CheckedFollower
import Tidkod.Protocol.PeerInput
import Tidkod.Protocol.Labels
import Tidkod.Native.Controls
import Tidkod.Lib.LeastSquares
import Tidkod.Protocol.ClockFit
import Tidkod.Protocol.Epochs
import Tidkod.Native.Retry
import Tidkod.Protocol.SlewMotion
import Tidkod.Lib.Ramp
import Tidkod.Protocol.Heartbeats
import Tidkod.Protocol.TrackerEvidence
import Tidkod.Protocol.TrackerSteps
import Tidkod.Protocol.Sightings
import Tidkod.Protocol.SourceFollowing
import Tidkod.Lib.AgreementWindow
import Tidkod.Protocol.Reacquisition
import Tidkod.Protocol.CanonicalRate
import Tidkod.Protocol.ExactAdvance
import Tidkod.Protocol.MappedTime
import Tidkod.Protocol.Representation
import Tidkod.Protocol.FreshFollower
import Tidkod.Protocol.SyncReporting
import Tidkod.Native.RecvStream
import Tidkod.Protocol.ClockAccuracy
import Tidkod.Protocol.Acquisition
import Tidkod.Native.ClockNetwork
import Tidkod.Native.ClockKnowledge
import Tidkod.Lib.PrefixDecoder
import Tidkod.Native.Varint
import Tidkod.Native.WebSend
import Tidkod.Native.WebStream
import Tidkod.Native.WebSession
import Tidkod.Native.Capsules
import Tidkod.Native.GracefulClose
import Tidkod.Lib.Doorbell
import Tidkod.Native.Engine
import Tidkod.Native.EngineWakeups
import Tidkod.Native.Endpoint
