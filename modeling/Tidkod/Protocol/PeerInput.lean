import Mathlib.Tactic
import Tidkod.Protocol.CheckedFollower

/-!
A follower with the probes of its connection, as every adapter keeps it, fed with
whatever a peer sends. Snapshots and replies are byte strings, and timestamps are any
64-bit values in any order. The checked run of such a client is its exact run.
-/

namespace Tidkod

open Rounding Panics Proto3

/-- `Core` of the bindings: a follower and the probes of its connection. -/
structure Client where
  core : FollowerCore
  probes : Probes

/-- What happens to a client. Adapters take fresh probes for a new connection; a client
that keeps its old ones is covered as well. -/
inductive ClientEvent where
  | connected (freshProbes : Bool)
  | disconnected
  | snapshot (bytes : Bytes) (now : UInt64)
  | request (now : UInt64)
  | publicationFinished (now : UInt64)
  | reply (bytes : Bytes) (receivedNs processedNs : UInt64)
  | tick (now staleAfter : UInt64)
  | evaluate (localNs : UInt64)
  | nextBoundary (localNs : UInt64)

/-- What the client returns to its caller. -/
inductive ClientResult where
  | done
  | corrected (r : Except Fault (Option Correction))
  | requested (r : Except Error Bytes)
  | reading (r : Reading)
  | boundary (b : Option Boundary)

/-- `Timeline::from_wire(&decode_snapshot(bytes)?)?`. -/
def Timeline.received (bytes : Bytes) : Except Fault Timeline := do
  let s ← propagate (decodeSnapshot bytes)
  fromWire s

def Timeline.receivedM (bytes : Bytes) : Fallible Timeline := do
  let s ← decodeSnapshotM bytes
  fromWireM s

namespace Client

def new (position : Position) (format : FrameFormat) (policy : CorrectionPolicy) : Client where
  core := FollowerCore.new (fallback position format) policy
  probes := Probes.default

def connected (c : Client) (freshProbes : Bool) : Client where
  core := c.core.connected
  probes := if freshProbes then Probes.default else c.probes

def snapshot (c : Client) (bytes : Bytes) (now : Nat) : Client × ClientResult :=
  match Timeline.received bytes with
  | .error e => (c, .corrected (.error e))
  | .ok t => ({ c with core := (c.core.state t now).1 }, .corrected (.ok (c.core.state t now).2))

def snapshotM (c : Client) (bytes : Bytes) (now : Nat) : Checked (Client × ClientResult) := do
  let received ← (Timeline.receivedM bytes).run
  match received with
  | .error e => pure (c, .corrected (.error (.error e)))
  | .ok t => do
      let next ← c.core.stateM t now
      pure ({ c with core := next.1 }, .corrected (.ok next.2))

/-- A matched reply is measured with the publication time of its request. -/
def reply (c : Client) (bytes : Bytes) (receivedNs processedNs : Nat) : Client × ClientResult :=
  let (probes, matched) := c.probes.reply bytes receivedNs
  match matched with
  | .error e => ({ c with probes := probes }, .corrected (.error (.error e)))
  | .ok none => ({ c with probes := probes }, .corrected (.ok none))
  | .ok (some e) =>
      let next := c.core.measurementTimed e probes.lastPublicationNs processedNs
      (⟨next.1, probes⟩, .corrected (.ok next.2))

def replyM (c : Client) (bytes : Bytes) (receivedNs processedNs : Nat) :
    Checked (Client × ClientResult) := do
  let (probes, matched) ← c.probes.replyM bytes receivedNs
  match matched with
  | .error e => pure ({ c with probes := probes }, .corrected (.error (.error e)))
  | .ok none => pure ({ c with probes := probes }, .corrected (.ok none))
  | .ok (some e) => do
      let next ← c.core.measurementTimedM e probes.lastPublicationNs processedNs
      pure (⟨next.1, probes⟩, .corrected (.ok next.2))

def step (c : Client) : ClientEvent → Client × ClientResult
  | .connected freshProbes => (c.connected freshProbes, .done)
  | .disconnected => ({ c with core := c.core.disconnected }, .done)
  | .snapshot bytes now => c.snapshot bytes now.toNat
  | .request now =>
      ({ c with probes := (c.probes.request now.toNat).1 },
        .requested (c.probes.request now.toNat).2)
  | .publicationFinished now =>
      ({ c with probes := c.probes.publicationFinished now.toNat }, .done)
  | .reply bytes receivedNs processedNs => c.reply bytes receivedNs.toNat processedNs.toNat
  | .tick now staleAfter =>
      ({ c with core := (c.core.tick now.toNat staleAfter.toNat).1 },
        .corrected (.ok (c.core.tick now.toNat staleAfter.toNat).2))
  | .evaluate localNs => (c, .reading (c.core.view.evaluate localNs.toNat))
  | .nextBoundary localNs => (c, .boundary (c.core.view.nextBoundary localNs.toNat))

def stepM (c : Client) : ClientEvent → Checked (Client × ClientResult)
  | .connected freshProbes => pure (c.connected freshProbes, .done)
  | .disconnected => pure ({ c with core := c.core.disconnected }, .done)
  | .snapshot bytes now => c.snapshotM bytes now.toNat
  | .request now => do
      let next ← c.probes.requestM now.toNat
      pure ({ c with probes := next.1 }, .requested next.2)
  | .publicationFinished now => do
      let probes ← c.probes.publicationFinishedM now.toNat
      pure ({ c with probes := probes }, .done)
  | .reply bytes receivedNs processedNs => c.replyM bytes receivedNs.toNat processedNs.toNat
  | .tick now staleAfter => do
      let next ← c.core.tickM now.toNat staleAfter.toNat
      pure ({ c with core := next.1 }, .corrected (.ok next.2))
  | .evaluate localNs => do
      let reading ← c.core.view.evaluateM localNs.toNat
      pure (c, .reading reading)
  | .nextBoundary localNs => do
      let boundary ← c.core.view.nextBoundaryM localNs.toNat
      pure (c, .boundary boundary)

end Client

/-- Positions are exact up to one truncation and are held at the bounds of their range. -/
def View.Saturates (v : View) : Prop :=
  (∀ time, (v.timeline.at time).1.fixed =
    clamp Position.fixedMin Position.fixedMax
      ((v.timeline.current time).anchor.position.fixed +
        trunc ((v.timeline.current time).anchor.elapsed time *
          velocity v.timeline.format (v.timeline.current time).anchor.rate))) ∧
    ∀ localNs, v.initialized = true → (v.evaluate localNs).position.fixed =
      clamp Position.fixedMin Position.fixedMax
        ((v.timeline.at (v.evaluationTime localNs)).1.fixed + trunc (v.remaining localNs * q32))

theorem Timeline.receivedM_eq (bytes : Bytes) :
    ∃ r, receivedM bytes = returned r ∧ received bytes = propagate r := by
  rw [receivedM, decodeSnapshotM_eq, received]
  cases decodeSnapshot bytes with
  | error e => exact ⟨.error e, rfl, rfl⟩
  | ok s => exact fromWireM_eq s

theorem Timeline.received_valid {bytes : Bytes} {t : Timeline} (h : received bytes = .ok t) :
    t.Valid := by
  rw [received, bind_eq_ok] at h
  obtain ⟨s, -, hs⟩ := h
  exact fromWire_valid hs

namespace Client

variable {c : Client}

theorem snapshotM_eq (h : c.core.Guarded) (bytes : Bytes) (now : Nat) :
    c.snapshotM bytes now = .ok (c.snapshot bytes now) := by
  obtain ⟨r, hreceived, hexact⟩ := Timeline.receivedM_eq bytes
  rw [snapshotM, snapshot, hreceived, hexact]
  cases r with
  | error e => rfl
  | ok t =>
      have hvalid := Timeline.received_valid hexact
      change (c.core.stateM t now >>= fun next =>
        pure ({ c with core := next.1 }, ClientResult.corrected (.ok next.2))) = _
      rw [h.stateM_eq hvalid.fits, bind_ok]
      rfl

theorem replyM_eq (h : c.core.Guarded) (bytes : Bytes) (receivedNs processedNs : Nat) :
    c.replyM bytes receivedNs processedNs = .ok (c.reply bytes receivedNs processedNs) := by
  rw [replyM, Probes.replyM_eq, bind_ok, reply]
  rcases c.probes.reply bytes receivedNs with ⟨probes, e | none | e⟩
  · rfl
  · rfl
  · simp only [h.measurementTimedM_eq, bind_ok]
    rfl

theorem stepM_eq (h : c.core.Guarded) (event : ClientEvent) :
    c.stepM event = .ok (c.step event) := by
  cases event with
  | connected freshProbes => rfl
  | disconnected => rfl
  | snapshot bytes now => exact snapshotM_eq h bytes now.toNat
  | request now =>
      rw [stepM, Probes.requestM_eq]
      rfl
  | publicationFinished now =>
      rw [stepM, Probes.publicationFinishedM_eq]
      rfl
  | reply bytes receivedNs processedNs =>
      exact replyM_eq h bytes receivedNs.toNat processedNs.toNat
  | tick now staleAfter =>
      rw [stepM, h.tickM_eq]
      rfl
  | evaluate localNs =>
      rw [stepM, h.view.evaluateM_eq]
      rfl
  | nextBoundary localNs =>
      rw [stepM, h.view.nextBoundaryM_eq]
      rfl

/-- An event is at most one operation of the follower. -/
theorem step_core (c : Client) (event : ClientEvent) :
    (c.step event).1.core = c.core ∨ ∃ op, (c.step event).1.core = (c.core.step op).1 := by
  cases event with
  | connected freshProbes => exact Or.inr ⟨.connected, rfl⟩
  | disconnected => exact Or.inr ⟨.disconnected, rfl⟩
  | snapshot bytes now =>
      cases hreceived : Timeline.received bytes with
      | error e =>
          left
          rw [step, snapshot, hreceived]
      | ok t =>
          right
          refine ⟨.state ⟨t, Timeline.received_valid hreceived⟩ now.toNat, ?_⟩
          rw [step, snapshot, hreceived]
          rfl
  | request now => exact Or.inl rfl
  | publicationFinished now => exact Or.inl rfl
  | reply bytes receivedNs processedNs =>
      rw [step, reply]
      rcases c.probes.reply bytes receivedNs.toNat with ⟨probes, e | none | e⟩
      · exact Or.inl rfl
      · exact Or.inl rfl
      · exact Or.inr ⟨.measurementTimed e probes.lastPublicationNs processedNs.toNat, rfl⟩
  | tick now staleAfter => exact Or.inr ⟨.tick now.toNat staleAfter.toNat, rfl⟩
  | evaluate localNs => exact Or.inl rfl
  | nextBoundary localNs => exact Or.inl rfl

theorem guarded_step (h : c.core.Guarded) (event : ClientEvent) :
    (c.step event).1.core.Guarded := by
  rcases c.step_core event with hsame | ⟨op, hop⟩
  · rw [hsame]
    exact h
  · rw [hop]
    exact h.step op

end Client

theorem View.Guarded.saturates {v : View} (h : v.Guarded) : v.Saturates := by
  refine ⟨fun time => ?_, fun localNs hclock => ?_⟩
  · rw [Timeline.at_eq_current]
    exact Anchor.fixed_at _ time v.timeline.format
  · have hposition : (v.evaluate localNs).position = Position.fromFixed
        ((v.timeline.at (v.evaluationTime localNs)).1.fixed +
          asI128 (v.remaining localNs * q32)) := if_pos hclock
    rw [hposition, Position.fixed_fromFixed, h.asI128_correction]

/-- Nothing that a peer sends, in no order and at no time, makes the client panic: the
run in which every operation is checked returns what the exact run returns. -/
theorem peer_input_safe (position : Position) (format : FrameFormat) (policy : CorrectionPolicy)
    (hslew : 0 ≤ policy.slewFramesPerSecond) (events : List ClientEvent) :
    runM Client.stepM (Client.new position format policy) events =
        .ok (Machine.run Client.step (Client.new position format policy) events,
          Machine.outputs Client.step (Client.new position format policy) events) ∧
      (Machine.run Client.step (Client.new position format policy) events).core.view.Saturates ∧
      (Machine.run Client.step
        (Client.new position format policy) events).core.view.timeline.scheduled.length ≤
          maxScheduled := by
  have hnew : (Client.new position format policy).core.Guarded :=
    FollowerCore.guarded_new position format hslew
  have hrun := Machine.run_invariant (P := fun c : Client => c.core.Guarded)
    (fun _ event h => Client.guarded_step h event) hnew events
  refine ⟨?_, hrun.view.saturates, hrun.fits.capacity⟩
  exact runM_eq (P := fun c : Client => c.core.Guarded) (fun _ event h => Client.stepM_eq h event)
    (fun _ event h => Client.guarded_step h event) hnew events

/-- A snapshot at the end of the position range, played forwards at the highest rate. -/
def edgeTimeline : Timeline :=
  { Timeline.default with
    session := List.Vector.replicate 16 1
    revision := 1
    anchor := ⟨0, Position.fromFixed Position.fixedMax, ⟨64, 1, by decide, by decide⟩⟩ }

/-- The snapshot, a reply that is truncated, and one that is measured. -/
def edgeEvents : List ClientEvent :=
  [.connected true, .snapshot edgeTimeline.bytes 0, .request 1000,
    .reply [8] 1000 1000,
    .reply (serialize (Wire.Probe.fields ⟨1, 1, 1000, 1000, 1000⟩)) 1000 18446744073709551615,
    .evaluate 18446744073709551615, .nextBoundary 18446744073709551615]

theorem peer_input_safe_of_edge :
    runM Client.stepM (Client.new Position.zero FrameFormat.default CorrectionPolicy.default)
        edgeEvents =
      .ok (Machine.run Client.step
          (Client.new Position.zero FrameFormat.default CorrectionPolicy.default) edgeEvents,
        Machine.outputs Client.step
          (Client.new Position.zero FrameFormat.default CorrectionPolicy.default) edgeEvents) ∧
      ((Machine.run Client.step
        (Client.new Position.zero FrameFormat.default CorrectionPolicy.default)
          edgeEvents).core.view.evaluate u64Max).position.fixed = Position.fixedMax := by
  have hpolicy : 0 ≤ CorrectionPolicy.default.slewFramesPerSecond := by
    norm_num [CorrectionPolicy.default, CorrectionPolicy.legacy]
  exact ⟨(peer_input_safe _ _ _ hpolicy edgeEvents).1, by decide +kernel⟩

end Tidkod
