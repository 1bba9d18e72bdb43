import Mathlib.Tactic
import Mathlib.Data.Vector.Basic
import Tidkod.Lib.TimedQueue
import Tidkod.Protocol.Clock

/-!
Timestamped trajectories and the reader's view of them (`timeline.rs`). The
source keeps up to four scheduled changes in an array with a length; only the
live prefix is ever read, so it is a list here.
-/

namespace Tidkod

open Rounding TimedQueue

/-- `[u8; 16]`. -/
abbrev Bytes16 := List.Vector UInt8 16

inductive ConnectionState where
  | disconnected
  | connecting
  | connected
  | shutdown
  deriving DecidableEq, Repr

inductive SyncState where
  | uninitialized
  | acquiring
  | synchronized
  | holdover
  deriving DecidableEq, Repr

inductive SourceKind where
  | generated
  | tracked
  deriving DecidableEq, Repr

inductive SourceHealth where
  | healthy
  | degraded
  deriving DecidableEq, Repr

inductive Correction where
  | discontinuity (id : Nat)
  | slew (frames : ℚ)
  | hardResync (frames : ℚ)
  | newSession
  deriving DecidableEq

structure Anchor where
  timeNs : Nat
  position : Position
  rate : Rate
  deriving DecidableEq

def Anchor.default : Anchor := ⟨0, Position.zero, Rate.paused⟩

def Anchor.at (a : Anchor) (time : Nat) (format : FrameFormat) : Position :=
  a.position.advance (clamp i64Min i64Max ((time : Int) - a.timeNs)) format a.rate

structure Scheduled where
  discontinuity : Nat
  anchor : Anchor
  deriving DecidableEq

/-- The effective time of a scheduled change. -/
def Scheduled.timeNs (s : Scheduled) : Nat := s.anchor.timeNs

structure Timeline where
  session : Bytes16
  sessionId : Option Bytes16
  revision : Nat
  discontinuity : Nat
  format : FrameFormat
  anchor : Anchor
  sourceKind : SourceKind
  sourceHealth : SourceHealth
  scheduled : List Scheduled
  deriving DecidableEq

/-- The all-zero identity of the default timeline. -/
def Bytes16.zero : Bytes16 := List.Vector.replicate 16 0

def Timeline.default : Timeline where
  session := Bytes16.zero
  sessionId := none
  revision := 0
  discontinuity := 0
  format := FrameFormat.default
  anchor := Anchor.default
  sourceKind := .generated
  sourceHealth := .healthy
  scheduled := []

namespace Timeline

/-- Position, rate and discontinuity at a leader time. The loop keeps the last
scheduled change whose time has come. -/
def «at» (t : Timeline) (time : Nat) : Position × Rate × Nat :=
  let (a, d) := t.scheduled.foldl
    (fun (a, d) s => if s.anchor.timeNs ≤ time then (s.anchor, s.discontinuity) else (a, d))
    (t.anchor, t.discontinuity)
  (a.at time t.format, a.rate, d)

/-- The active trajectory as an entry of the schedule. -/
def active (t : Timeline) : Scheduled := ⟨t.discontinuity, t.anchor⟩

/-- The loop shared by latching and promotion: while the front entry matches,
it becomes the active trajectory and leaves the queue. -/
def activateWhile (p : Scheduled → Bool) (t : Timeline) : Timeline :=
  let (entry, rest) := popWhile p t.active t.scheduled
  { t with anchor := entry.anchor, discontinuity := entry.discontinuity, scheduled := rest }

/-- Activates every entry up to a discontinuity id. -/
def latch (t : Timeline) (discontinuity : Nat) : Timeline :=
  t.activateWhile (fun s => s.discontinuity ≤ discontinuity)

end Timeline

structure Status where
  connection : ConnectionState
  synchronization : SyncState
  sourceKind : SourceKind
  sourceHealth : SourceHealth
  uncertaintyNs : WithTop ℚ
  correctionFrames : ℚ
  offsetEvidence : Option OffsetEvidence
  sampleAgeNs : Nat
  rttNs : Nat
  offsetNs : ℚ
  driftPpm : ℚ
  lostPackets : Nat
  acceptedObservations : Nat
  alignmentErrorNs : WithTop ℚ
  aligned : Bool
  resyncGeneration : Nat
  deriving DecidableEq

structure Reading where
  sessionId : Option Bytes16
  position : Position
  format : FrameFormat
  rate : Rate
  discontinuity : Nat
  status : Status
  deriving DecidableEq

structure View where
  timeline : Timeline
  fallbackPosition : Position
  fallbackFormat : FrameFormat
  mapping : ClockMapping
  connection : ConnectionState
  sync : SyncState
  rttNs : Nat
  lostPackets : Nat
  correctionFrames : ℚ
  correctionAt : Nat
  slewFramesPerSecond : ℚ
  correctionDiscontinuity : Nat
  resyncGeneration : Nat
  localClock : Bool
  recovering : Bool
  deriving DecidableEq

def View.default : View where
  timeline := Timeline.default
  fallbackPosition := Position.zero
  fallbackFormat := FrameFormat.default
  mapping := ClockMapping.default
  connection := .disconnected
  sync := .uninitialized
  rttNs := 0
  lostPackets := 0
  correctionFrames := 0
  correctionAt := 0
  slewFramesPerSecond := 3 / 100
  correctionDiscontinuity := 0
  resyncGeneration := 0
  localClock := false
  recovering := false

namespace View

/-- The leader time at which the timeline is evaluated. -/
def evaluationTime (v : View) (localNs : Nat) : Nat :=
  if v.sync = .uninitialized then v.timeline.anchor.timeNs else v.mapping.leaderTime localNs

/-- `f64::signum`, which is one at zero. -/
def signum (x : ℚ) : ℚ := if x < 0 then -1 else 1

/-- The part of the correction that is left at a local time. It belongs to one
discontinuity and shrinks at most at a tenth of the playback speed. -/
def remaining (v : View) (localNs : Nat) : ℚ :=
  let (_, rate, discontinuity) := v.timeline.at (v.evaluationTime localNs)
  let slew := min v.slewFramesPerSecond (v.timeline.format.fps * |rate.asF64| * (1 / 10))
  if discontinuity = v.correctionDiscontinuity then
    max (|v.correctionFrames| -
      ((localNs - v.correctionAt : Nat) : ℚ) / 1000000000 * slew) 0 * signum v.correctionFrames
  else 0

/-- An accepted clock measurement exists. -/
def initialized (v : View) : Bool := v.mapping.lastSampleNs != 0

def evaluate (v : View) (localNs : Nat) : Reading :=
  let (trajectory, rate, discontinuity) := v.timeline.at (v.evaluationTime localNs)
  let remaining := v.remaining localNs
  let position := Position.fromFixed (trajectory.fixed + asI128 (remaining * q32))
  let uncertaintyNs := if v.localClock then 0 else v.mapping.uncertaintyAt localNs
  let alignmentErrorNs : WithTop ℚ :=
    if v.initialized then
      uncertaintyNs.map (fun u =>
        u * |rate.asF64| + |remaining| / v.timeline.format.fps * 1000000000)
    else ⊤
  { sessionId := v.timeline.sessionId
    position := if v.initialized then position else v.fallbackPosition
    format := if v.initialized then v.timeline.format else v.fallbackFormat
    rate := if v.initialized then rate else Rate.paused
    discontinuity := discontinuity
    status :=
      { connection := v.connection
        synchronization := if v.initialized then v.sync else .uninitialized
        sourceKind := v.timeline.sourceKind
        sourceHealth := v.timeline.sourceHealth
        uncertaintyNs := uncertaintyNs
        correctionFrames := if v.initialized then remaining else 0
        offsetEvidence := v.mapping.evidence.map (fun e => e.at localNs)
        sampleAgeNs := localNs - v.mapping.lastSampleNs
        rttNs := v.rttNs
        offsetNs := v.mapping.offsetAt localNs
        driftPpm := v.mapping.drift * 1000000
        lostPackets := v.lostPackets
        acceptedObservations := v.mapping.acceptedObservations
        alignmentErrorNs := alignmentErrorNs
        aligned := v.initialized && v.connection == .connected && v.sync == .synchronized &&
          !v.recovering && v.timeline.sourceHealth == .healthy &&
          v.mapping.evidence.all OffsetEvidence.consistent &&
          decide (alignmentErrorNs ≤ ((1000000 : ℚ) : WithTop ℚ))
        resyncGeneration := v.resyncGeneration } }

end View

end Tidkod
