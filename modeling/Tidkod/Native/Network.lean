import Mathlib.Tactic
import Tidkod.Lib.Machine
import Tidkod.Protocol.Encoding
import Tidkod.Protocol.Tracking

/-!
The worker of a leader (`LeaderJob` of `network.rs`). A pass executes queued
commands, each with its own reading of the clock, promotes the schedule that
has become due, checks the health of a tracked source, and publishes a new
revision when anything asked for it. Sockets, peers and reader buffers carry the
timeline and are not modelled; how long ago the last revision was published is
an input of the pass.
-/

namespace Tidkod

open Proto3

/-- The errors of the native crate that reach a caller here. -/
inductive NativeError where
  | invalid (what : String)
  | protocol (e : Error)
  deriving DecidableEq, Repr

inductive Change where
  | rate (r : Rate)
  | seek (p : Position)
  | set (p : Position) (r : Rate)
  deriving DecidableEq

inductive Command where
  | sessionId (id : Bytes16)
  | reader
  | change (change : Change) (effective : Option Nat)
  | sample (s : SourceSample)
  | reconnect
  deriving DecidableEq

structure LeaderConfig where
  sessionId : Option Bytes16
  format : FrameFormat
  position : Position
  rate : Rate
  sourceKind : SourceKind
  heartbeat : Nat
  trackedPublish : Nat
  sourceTimeout : Nat
  deriving DecidableEq

namespace Timeline

/-- Position and rate that a control asks for, on top of the trajectory in
effect at its time. -/
def target (change : Change) (position : Position) (rate : Rate) : Position × Rate :=
  match change with
  | .rate r => (position, r)
  | .seek p => (p, rate)
  | .set p r => (p, r)

/-- The id for a control that takes effect at `time`. -/
def nextDiscontinuity (t : Timeline) (time : Nat) : Nat :=
  max (max t.discontinuity (t.at time).2.2)
    (t.scheduled.getLast?.elim 0 Scheduled.discontinuity) + 1

end Timeline

/-- A control takes effect at its stated time: later than now it is appended to
the schedule, otherwise it replaces the active trajectory and the schedule. An
error leaves the timeline alone. -/
def changeTimeline (t : Timeline) (change : Change) (effective : Option Nat) (now : Nat) :
    Except NativeError Timeline :=
  let time := effective.getD now
  if i64Max < time then .error (.invalid "scheduled timestamp")
  else if now < time ∧ (t.scheduled.length = 4 ∨
      t.scheduled.getLast?.any (fun s => time ≤ s.anchor.timeNs)) then
    .error (.invalid "schedule full or non-increasing")
  else
    let (position, rate, _) := t.at time
    let (position, rate) := Timeline.target change position rate
    let anchor : Anchor := ⟨time, position, rate⟩
    let next := t.nextDiscontinuity time
    if now < time then .ok { t with scheduled := t.scheduled ++ [⟨next, anchor⟩] }
    else .ok { t with anchor := anchor, discontinuity := next, scheduled := [] }

/-- What local readers of a leader are given. -/
def leaderView (t : Timeline) (now : Nat) : View :=
  { View.default with
    localClock := true
    timeline := t
    mapping :=
      { ClockMapping.default with
        referenceNs := now
        uncertaintyNs := 0
        lastSampleNs := now
        converged := true }
    connection := .connected
    sync := .synchronized }

structure LeaderJob where
  config : LeaderConfig
  timeline : Timeline
  tracker : Tracker
  bytes : Bytes
  dirty : Bool
  deriving DecidableEq

/-- The part of `progress` up to the promotion: the worker and the flag that
asks for a publication. -/
structure LeaderPass where
  job : LeaderJob
  publish : Bool
  deriving DecidableEq

/-- The readings that end a pass: the clock, and the time since the last
publication at the two places that look at it. -/
structure PassEnd where
  now : Nat
  elapsed : Nat
  trackedElapsed : Nat
  deriving DecidableEq

/-- A pass executes at most 32 commands. -/
structure Pass where
  commands : List (Nat × Command)
  ending : PassEnd
  commands_le : commands.length ≤ 32

namespace LeaderPass

/-- One turn of the command loop, with the reply to the caller. -/
def command (s : LeaderPass) : Nat × Command → LeaderPass × Except NativeError Unit
  | (_, .reader) => (s, .ok ())
  | (_, .sessionId id) =>
      ({ job := { s.job with timeline := { s.job.timeline with sessionId := some id } }
         publish := s.publish || s.job.timeline.sessionId ≠ some id }, .ok ())
  | (now, .change change effective) =>
      match changeTimeline s.job.timeline change effective now with
      | .ok t => ({ job := { s.job with timeline := t }, publish := true }, .ok ())
      | .error e => (s, .error e)
  | (now, .sample sample) =>
      match s.job.tracker.sample s.job.timeline sample now with
      | ((tracker, t), .ok immediate) =>
          ({ job := { s.job with tracker := tracker, timeline := t, dirty := true }
             publish := s.publish || immediate ||
               s.job.timeline.sourceHealth ≠ t.sourceHealth }, .ok ())
      | ((tracker, t), .error e) =>
          ({ s with job := { s.job with tracker := tracker, timeline := t } },
            .error (.protocol e))
  | (_, .reconnect) => (s, .ok ())

/-- The promotion loop. -/
def promote (s : LeaderPass) (now : Nat) : LeaderPass where
  job :=
    { s.job with timeline := s.job.timeline.activateWhile (fun c => c.timeNs ≤ now) }
  publish := s.publish || s.job.timeline.scheduled.head?.any (fun c => c.timeNs ≤ now)

/-- The health check of a tracked source. -/
def checkHealth (s : LeaderPass) (now : Nat) : LeaderPass :=
  let health := s.job.tracker.health now s.job.config.sourceTimeout
  if s.job.config.sourceKind = .tracked ∧ health ≠ s.job.timeline.sourceHealth then
    { job := { s.job with timeline := { s.job.timeline with sourceHealth := health } }
      publish := true }
  else s

/-- Heartbeats, and the coalesced publication of refinements. -/
def due (s : LeaderPass) (r : PassEnd) : Bool :=
  s.publish || s.job.config.heartbeat ≤ r.elapsed ||
    (s.job.dirty && s.job.config.trackedPublish ≤ r.trackedElapsed)

end LeaderPass

namespace LeaderJob

/-- The timeline a leader starts with. -/
def initialTimeline (config : LeaderConfig) (session generatedId : Bytes16) (now : Nat) :
    Timeline :=
  { Timeline.default with
    session := session
    sessionId := some (config.sessionId.getD generatedId)
    revision := 1
    format := config.format
    anchor := ⟨now, config.position, config.rate⟩
    sourceKind := config.sourceKind
    sourceHealth := if config.sourceKind = .tracked then .degraded else .healthy }

/-- The source unwraps the encoding: an error here is a panic there. -/
def new (config : LeaderConfig) (session generatedId : Bytes16) (now : Nat) :
    Except Error LeaderJob := do
  let timeline := initialTimeline config session generatedId now
  let bytes ← encode timeline.wire
  pure
    { config := config
      timeline := timeline
      tracker := Tracker.default
      bytes := bytes
      dirty := false }

/-- The next revision, encoded. -/
def publish (job : LeaderJob) : Except NativeError LeaderJob :=
  let timeline := { job.timeline with revision := job.timeline.revision + 1 }
  match encode timeline.wire with
  | .ok bytes => .ok { job with timeline := timeline, bytes := bytes, dirty := false }
  | .error e => .error (.protocol e)

end LeaderJob

/-- The rest of a pass after its commands; the flag says whether the payload is
written to the peers. -/
def LeaderPass.finish (s : LeaderPass) (r : PassEnd) : Except NativeError (LeaderJob × Bool) :=
  let s := (s.promote r.now).checkHealth r.now
  if s.due r then s.job.publish.map (fun job => (job, true)) else .ok (s.job, false)

/-- `LeaderJob::progress`. An error ends the worker. -/
def LeaderJob.progress (job : LeaderJob) (p : Pass) : Except NativeError (LeaderJob × Bool) :=
  (Machine.run LeaderPass.command ⟨job, false⟩ p.commands).finish p.ending

/-- What an accepted control does to the timeline. -/
inductive ChangeOutcome (t : Timeline) (now : Nat) : Timeline → Prop where
  | scheduled (anchor : Anchor) (hlater : now < anchor.timeNs) (htime : anchor.timeNs ≤ i64Max)
      (hroom : t.scheduled.length ≠ 4)
      (hlast : ∀ s ∈ t.scheduled.getLast?, s.timeNs < anchor.timeNs) :
      ChangeOutcome t now
        { t with scheduled := t.scheduled ++ [⟨t.nextDiscontinuity anchor.timeNs, anchor⟩] }
  | replaced (anchor : Anchor) (hdue : anchor.timeNs ≤ now) (htime : anchor.timeNs ≤ i64Max) :
      ChangeOutcome t now
        { t with
          anchor := anchor
          discontinuity := t.nextDiscontinuity anchor.timeNs
          scheduled := [] }

theorem changeTimeline_outcome {t u : Timeline} {change : Change} {effective : Option Nat}
    {now : Nat} (h : changeTimeline t change effective now = .ok u) : ChangeOutcome t now u := by
  unfold changeTimeline at h
  dsimp only at h
  split_ifs at h with htime hfull hlater
  · obtain rfl := Except.ok.inj h
    have hopen : ¬ (t.scheduled.length = 4 ∨
        t.scheduled.getLast?.any (fun s => effective.getD now ≤ s.anchor.timeNs) = true) :=
      fun hclosed => hfull ⟨hlater, hclosed⟩
    refine .scheduled ⟨effective.getD now, _, _⟩ hlater (not_lt.mp htime)
      (fun hlength => hopen (Or.inl hlength)) (fun s hs => ?_)
    by_contra hle
    refine hopen (Or.inr ?_)
    rw [Option.mem_def.mp hs]
    simpa [Scheduled.timeNs] using hle
  · obtain rfl := Except.ok.inj h
    exact .replaced ⟨effective.getD now, _, _⟩ (not_lt.mp hlater) (not_lt.mp htime)

/-- The possible effects of a command. -/
inductive CommandOutcome (s : LeaderPass) (now : Nat) :
    Command → LeaderPass × Except NativeError Unit → Prop where
  | ignored (c : Command) (hquiet : c = .reader ∨ c = .reconnect) :
      CommandOutcome s now c (s, .ok ())
  | identified (id : Bytes16) :
      CommandOutcome s now (.sessionId id)
        ({ job := { s.job with timeline := { s.job.timeline with sessionId := some id } }
           publish := s.publish || s.job.timeline.sessionId ≠ some id }, .ok ())
  | refused (change : Change) (effective : Option Nat) (e : NativeError) :
      CommandOutcome s now (.change change effective) (s, .error e)
  | controlled (change : Change) (effective : Option Nat) (t : Timeline)
      (hchange : ChangeOutcome s.job.timeline now t) :
      CommandOutcome s now (.change change effective)
        ({ job := { s.job with timeline := t }, publish := true }, .ok ())
  | sampled (sample : SourceSample) (tracker : Tracker) (t : Timeline) (immediate : Bool)
      (hsample : Tracker.SampleOutcome s.job.tracker s.job.timeline sample now
        ((tracker, t), .ok immediate)) :
      CommandOutcome s now (.sample sample)
        ({ job := { s.job with tracker := tracker, timeline := t, dirty := true }
           publish := s.publish || immediate ||
             s.job.timeline.sourceHealth ≠ t.sourceHealth }, .ok ())
  | unsampled (sample : SourceSample) (tracker : Tracker) (e : NativeError) :
      CommandOutcome s now (.sample sample)
        ({ s with job := { s.job with tracker := tracker } }, .error e)

theorem LeaderPass.command_outcome (s : LeaderPass) (now : Nat) (c : Command) :
    CommandOutcome s now c (s.command (now, c)) := by
  cases c with
  | sessionId id => exact .identified id
  | reader => exact .ignored _ (Or.inl rfl)
  | reconnect => exact .ignored _ (Or.inr rfl)
  | change change effective =>
      simp only [command]
      split
      · next t hchange => exact .controlled _ _ t (changeTimeline_outcome hchange)
      · exact .refused _ _ _
  | sample sample =>
      have houtcome := s.job.tracker.sample_outcome s.job.timeline sample now
      simp only [command]
      split
      · next tracker t immediate hsample =>
          rw [hsample] at houtcome
          exact .sampled sample tracker t immediate houtcome
      · next tracker t e hsample =>
          rw [hsample] at houtcome
          cases houtcome
          exact .unsampled sample tracker _

/-- The possible ends of a pass. -/
inductive FinishOutcome (s : LeaderPass) (r : PassEnd) :
    Except NativeError (LeaderJob × Bool) → Prop where
  | quiet (hquiet : ((s.promote r.now).checkHealth r.now).due r = false) :
      FinishOutcome s r (.ok (((s.promote r.now).checkHealth r.now).job, false))
  | published (bytes : Bytes) (t : Timeline)
      (ht : t =
        { ((s.promote r.now).checkHealth r.now).job.timeline with
          revision := ((s.promote r.now).checkHealth r.now).job.timeline.revision + 1 })
      (hencode : encode t.wire = .ok bytes) :
      FinishOutcome s r
        (.ok ({ ((s.promote r.now).checkHealth r.now).job with
            timeline := t
            bytes := bytes
            dirty := false }, true))
  | failed (t : Timeline)
      (ht : t =
        { ((s.promote r.now).checkHealth r.now).job.timeline with
          revision := ((s.promote r.now).checkHealth r.now).job.timeline.revision + 1 })
      (e : Error) (hencode : encode t.wire = .error e) :
      FinishOutcome s r (.error (.protocol e))

theorem LeaderPass.finish_outcome (s : LeaderPass) (r : PassEnd) :
    FinishOutcome s r (s.finish r) := by
  unfold finish
  dsimp only
  split_ifs with hdue
  · unfold LeaderJob.publish
    dsimp only
    split
    · next bytes hencode => exact .published bytes _ rfl hencode
    · next e hencode => exact .failed _ rfl e hencode
  · exact .quiet (by simpa using hdue)

section Closing

variable (s : LeaderPass) (now : Nat)

/-- The health check sets the health and nothing else of the timeline. -/
theorem LeaderPass.checkHealth_timeline : ∃ health, (s.checkHealth now).job.timeline =
    { s.job.timeline with sourceHealth := health } := by
  unfold checkHealth
  dsimp only
  split_ifs
  · exact ⟨_, rfl⟩
  · exact ⟨s.job.timeline.sourceHealth, rfl⟩

end Closing

namespace LeaderJob

theorem initialTimeline_valid (config : LeaderConfig) (session generatedId : Bytes16) {now : Nat}
    (h : now ≤ i64Max) : (initialTimeline config session generatedId now).Valid where
  revision_pos := Nat.one_pos
  time_le := by
    intro s hs
    rw [List.mem_singleton.mp hs]
    exact h
  capacity := Nat.zero_le 4
  ordered := List.pairwise_singleton _ _

theorem initialTimeline_countable (config : LeaderConfig) (session generatedId : Bytes16)
    (now : Nat) : (initialTimeline config session generatedId now).Countable where
  revision_lt := by norm_num [initialTimeline]
  discontinuity_lt := by
    intro s hs
    rw [List.mem_singleton.mp hs]
    norm_num [initialTimeline, Timeline.active, Timeline.default]

/-- The first encoding succeeds. -/
theorem new_ok (config : LeaderConfig) (session generatedId : Bytes16) {now : Nat}
    (h : now ≤ i64Max) :
    new config session generatedId now = .ok
      { config := config
        timeline := initialTimeline config session generatedId now
        tracker := Tracker.default
        bytes := (initialTimeline config session generatedId now).bytes
        dirty := false } := by
  have hencode := Timeline.encode_wire (initialTimeline_valid config session generatedId h)
    (initialTimeline_countable config session generatedId now)
  simp only [new, hencode, ok_bind, pure, Except.pure]

/-- What is started is the initial timeline with its encoding. -/
theorem new_eq_ok {config : LeaderConfig} {session generatedId : Bytes16} {now : Nat}
    {job : LeaderJob} (h : new config session generatedId now = .ok job) :
    encode job.timeline.wire = .ok job.bytes ∧ job =
      { config := config
        timeline := initialTimeline config session generatedId now
        tracker := Tracker.default
        bytes := job.bytes
        dirty := false } := by
  simp only [new, bind_eq_ok, pure, Except.pure, Except.ok.injEq] at h
  obtain ⟨bytes, hbytes, rfl⟩ := h
  exact ⟨hbytes, rfl⟩

end LeaderJob

/-- A tracked leader at normal speed. -/
def trackedConfig : LeaderConfig where
  sessionId := none
  format := FrameFormat.default
  position := Position.zero
  rate := Rate.normal
  sourceKind := .tracked
  heartbeat := 1000000000
  trackedPublish := 100000000
  sourceTimeout := 500000000

/-- The first sample of its source, which always starts a trajectory. -/
def firstSample : SourceSample := ⟨1500, Position.zero, none, false⟩

end Tidkod
