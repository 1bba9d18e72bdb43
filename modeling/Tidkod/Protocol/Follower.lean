import Mathlib.Tactic
import Tidkod.Lib.Machine
import Tidkod.Protocol.Validity

/-!
The transport-independent follower (`FollowerCore` of `timeline.rs`). Each
operation returns the next state and the correction event it reports. The two
halves of `state`, adopting another session and refreshing the current one,
are separate definitions; everything the source does before they part stays in
`state`.
-/

namespace Tidkod

open Rounding

structure CorrectionPolicy where
  settleTimeNs : Nat
  slewFramesPerSecond : ℚ
  hardThresholdFrames : ℚ
  confirmations : Nat
  deriving DecidableEq

def CorrectionPolicy.legacy : CorrectionPolicy := ⟨0, 3 / 100, 1, 3⟩

def CorrectionPolicy.default : CorrectionPolicy :=
  { CorrectionPolicy.legacy with settleTimeNs := 250000000 }

/-- The policies with which the clients let a follower be configured. -/
def CorrectionPolicy.Admitted (p : CorrectionPolicy) : Prop :=
  0 < p.slewFramesPerSecond ∧ 0 < p.hardThresholdFrames ∧ p.confirmations ≠ 0 ∧
    p.settleTimeNs ≤ 3600000000000

instance (p : CorrectionPolicy) : Decidable p.Admitted :=
  inferInstanceAs (Decidable (_ ∧ _))

structure FollowerCore where
  view : View
  estimator : ClockEstimator
  policy : CorrectionPolicy
  large : Nat
  largeSign : Int
  everLocked : Bool
  expectedSession : Option Bytes16
  reportedDiscontinuity : Option (Bytes16 × Nat)
  deriving DecidableEq

/-- The paused timeline of a follower configuration. -/
def fallback (position : Position) (format : FrameFormat) : Timeline :=
  { Timeline.default with
    format := format
    anchor := { Anchor.default with position := position } }

namespace FollowerCore

def new (fallback : Timeline) (policy : CorrectionPolicy) : FollowerCore where
  view :=
    { View.default with
      timeline := fallback
      fallbackPosition := fallback.anchor.position
      fallbackFormat := fallback.format
      slewFramesPerSecond := policy.slewFramesPerSecond }
  estimator := ClockEstimator.default
  policy := policy
  large := 0
  largeSign := 0
  everLocked := false
  expectedSession := none
  reportedDiscontinuity := none

/-- Called once for each newly established transport. -/
def connected (c : FollowerCore) : FollowerCore :=
  { c with
    large := 0
    largeSign := 0
    expectedSession := none
    view := { c.view with connection := .connected } }

def disconnected (c : FollowerCore) : FollowerCore :=
  { c with
    view :=
      { c.view with
        connection := .disconnected
        sync := if c.view.mapping.lastSampleNs ≠ 0 then .holdover else c.view.sync } }

/-- Consecutive errors above the hard threshold in one direction. Only
measurements add to the count. -/
def countLarge (c : FollowerCore) (error : ℚ) (measurement : Bool) : FollowerCore :=
  if c.policy.hardThresholdFrames < |error| then
    let sign : Int := if 0 < error then 1 else -1
    let large := if sign ≠ c.largeSign then 0 else c.large
    { c with
      largeSign := sign
      large := if measurement then min (large + 1) 255 else large }
  else { c with large := 0 }

/-- Continues from the position `before`: a slew toward the trajectory, or a
jump to it once the error is confirmed. -/
def correct (c : FollowerCore) (before : Position) (now : Nat) (measurement : Bool) :
    FollowerCore × Option Correction :=
  let (desired, _, disc) := c.view.timeline.at (c.view.mapping.leaderTime now)
  let error : ℚ := ((before.fixed - desired.fixed : Int) : ℚ) / q32
  let c := c.countLarge error measurement
  if c.policy.hardThresholdFrames < |error| ∧ c.policy.confirmations ≤ c.large then
    ({ c with
        large := 0
        view :=
          { c.view with
            correctionFrames := 0
            resyncGeneration := min (c.view.resyncGeneration + 1) u64Max } },
      some (.hardResync (-error)))
  else
    ({ c with
        view :=
          { c.view with
            correctionFrames := error
            slewFramesPerSecond :=
              if c.policy.settleTimeNs = 0 then c.policy.slewFramesPerSecond
              else |error| * 1000000000 / c.policy.settleTimeNs
            correctionAt := now
            correctionDiscontinuity := disc } },
      some (.slew (-error)))

/-- An explicit discontinuity clears the correction and its confirmation. -/
def discontinue (c : FollowerCore) (disc : Nat) : FollowerCore × Option Correction :=
  ({ c with
      large := 0
      largeSign := 0
      view := { c.view with correctionFrames := 0 }
      reportedDiscontinuity := some (c.view.timeline.session, disc) },
    some (.discontinuity disc))

/-- `state` for a snapshot of another session. -/
def adopt (c : FollowerCore) (t : Timeline) : FollowerCore × Option Correction :=
  ({ c with
      estimator := ClockEstimator.default
      large := 0
      largeSign := 0
      everLocked := false
      view :=
        { c.view with
          mapping := ClockMapping.default
          sync := .acquiring
          recovering := false
          timeline := t
          correctionFrames := 0
          resyncGeneration := min (c.view.resyncGeneration + 1) u64Max } },
    some .newSession)

/-- `state` for a newer revision of the current session. -/
def refresh (c : FollowerCore) (t : Timeline) (now : Nat) : FollowerCore × Option Correction :=
  let before := c.view.evaluate now
  let t := t.latch (max c.view.timeline.discontinuity before.discontinuity)
  -- A newer revision may retain schedules already applied, but cannot undo one.
  if t.discontinuity < before.discontinuity ∨
      (t.format ≠ c.view.timeline.format ∧ t.discontinuity = before.discontinuity) then
    (c, none)
  else
    let c := { c with view := { c.view with timeline := t } }
    let disc := t.discontinuityAt (c.view.mapping.leaderTime now)
    if disc ≠ before.discontinuity then c.discontinue disc
    else c.correct before.position now false

def state (c : FollowerCore) (t : Timeline) (now : Nat) : FollowerCore × Option Correction :=
  if c.expectedSession.any (fun s => s ≠ t.session) then (c, none)
  else
    let c := { c with expectedSession := some t.session }
    if c.view.timeline.session ≠ t.session then c.adopt t
    else if t.revision ≤ c.view.timeline.revision then (c, none)
    else c.refresh t now

/-- The processing time of a measurement is at least its receipt time. -/
def measurementTime (e : Exchange) (processedNs : Nat) : Nat := max processedNs e.t4

/-- The accepted half of `measurement_timed`: the estimator's mapping replaces
the reader's. `before` was evaluated under the old mapping. -/
def applyMapping (c : FollowerCore) (before : Reading) (now : Nat) :
    FollowerCore × Option Correction :=
  let acquired := c.everLocked
  let mapping := c.estimator.mapping
  let c :=
    { c with
      everLocked := c.everLocked || mapping.converged
      view :=
        { c.view with
          mapping := mapping
          sync := if mapping.converged then .synchronized else .acquiring } }
  let (desired, _, disc) := c.view.timeline.at (mapping.leaderTime now)
  if !acquired then
    ({ c with
        view :=
          { c.view with
            correctionFrames := 0
            resyncGeneration := min (c.view.resyncGeneration + 1) u64Max } },
      some (.hardResync (((desired.fixed - before.position.fixed : Int) : ℚ) / q32)))
  else if disc ≠ before.discontinuity then c.discontinue disc
  else c.correct before.position now true

def measurementTimed (c : FollowerCore) (e : Exchange) (publicationNs : Option Nat)
    (processedNs : Nat) : FollowerCore × Option Correction :=
  if c.expectedSession.isNone then (c, none)
  else
    let now := measurementTime e processedNs
    let before := c.view.evaluate now
    let (estimator, accepted) := c.estimator.observeTimed e publicationNs processedNs
    let c :=
      { c with
        estimator := estimator
        view := { c.view with recovering := estimator.recovering } }
    if !accepted then (c, none)
    else c.applyMapping before now

def tick (c : FollowerCore) (now staleAfter : Nat) : FollowerCore × Option Correction :=
  if c.view.mapping.lastSampleNs = 0 then (c, none)
  else
    let disc := c.view.timeline.discontinuityAt (c.view.mapping.leaderTime now)
    let key := (c.view.timeline.session, disc)
    let previous := c.reportedDiscontinuity
    let c :=
      { c with
        view :=
          { c.view with
            sync :=
              if staleAfter < now - c.view.mapping.lastSampleNs then .holdover else c.view.sync
            timeline := c.view.timeline.latch disc }
        reportedDiscontinuity := some key }
    if previous.any (fun p => p.1 = key.1 ∧ p.2 ≠ key.2) then
      ({ c with large := 0, largeSign := 0 }, some (.discontinuity key.2))
    else (c, none)

end FollowerCore

/-- A timeline that passed snapshot validation. -/
structure Validated where
  timeline : Timeline
  valid : timeline.Valid

/-- The operations of a follower. -/
inductive Op where
  | connected
  | disconnected
  | state (t : Validated) (now : Nat)
  | measurementTimed (e : Exchange) (publicationNs : Option Nat) (processedNs : Nat)
  | tick (now staleAfter : Nat)

/-- The local time at which an operation is processed. -/
def Op.time : Op → Option Nat
  | .connected => none
  | .disconnected => none
  | .state _ now => some now
  | .measurementTimed e _ processedNs => some (FollowerCore.measurementTime e processedNs)
  | .tick now _ => some now

namespace FollowerCore

def step (c : FollowerCore) : Op → FollowerCore × Option Correction
  | .connected => (c.connected, none)
  | .disconnected => (c.disconnected, none)
  | .state t now => c.state t.timeline now
  | .measurementTimed e publicationNs processedNs => c.measurementTimed e publicationNs processedNs
  | .tick now staleAfter => c.tick now staleAfter

/-- States of a follower built from a configuration, after any operations. -/
def Reachable (c : FollowerCore) : Prop :=
  ∃ position format policy, Machine.Reachable step (new (fallback position format) policy) c

end FollowerCore

/-- A generated leader one second into its run, thirty frames in, with a jump to
frame 100 scheduled 100 ms later. -/
def sampleTimeline : Timeline :=
  { Timeline.default with
    session := List.Vector.replicate 16 1
    revision := 1
    anchor := ⟨1000000000, Position.fromFixed (30 * q32), Rate.normal⟩
    scheduled := [⟨1, ⟨1100000000, Position.fromFixed (100 * q32), Rate.normal⟩⟩] }

/-- A follower of that leader with one exchange over a path without delay. -/
def sampleOps : List Op :=
  [.connected, .state ⟨sampleTimeline, by decide⟩ 900000000,
    .measurementTimed ⟨1000000000, 1000000000, 1000000000, 1000000000⟩ none 1000000000]

def sampleFollower : FollowerCore :=
  Machine.run FollowerCore.step
    (FollowerCore.new (fallback Position.zero FrameFormat.default) CorrectionPolicy.default)
    sampleOps

theorem sampleFollower_reachable : sampleFollower.Reachable :=
  ⟨_, _, _, sampleOps, rfl⟩

end Tidkod
