import Mathlib.Tactic
import Tidkod.Protocol.Boundary
import Tidkod.Protocol.CheckedClock
import Tidkod.Protocol.FollowerOutput

/-!
Reading, deadlines and the operations of a follower with every operation that can panic
made explicit. What keeps them safe is a bound on the correction that is under way, a
slew that does not run backwards, a fitted drift in range and a schedule that fits its
array; each operation keeps all four.
-/

namespace Tidkod

open Rounding Panics Bisection

namespace View

/-- `remaining`, for what the timeline says at the local time. -/
def remainingM (v : View) (localNs : Nat) (rate : Rate) (discontinuity : Nat) : Checked ℚ := do
  let fps ← v.timeline.format.fpsM
  let speed ← rate.asF64M
  let slew := min v.slewFramesPerSecond (fps * |speed| * (1 / 10))
  pure
    (if discontinuity = v.correctionDiscontinuity then
      max (|v.correctionFrames| -
        ((localNs - v.correctionAt : Nat) : ℚ) / 1000000000 * slew) 0 * signum v.correctionFrames
    else 0)

def evaluateM (v : View) (localNs : Nat) : Checked Reading := do
  let (trajectory, rate, discontinuity) ← v.timeline.atM (v.evaluationTime localNs)
  let remaining ← v.remainingM localNs rate discontinuity
  let fixed ← trajectory.fixedM
  let corrected ← i128.add fixed (asI128 (remaining * q32))
  let position ← Position.fromFixedM corrected
  let uncertaintyNs := if v.localClock then 0 else v.mapping.uncertaintyAt localNs
  let speed ← rate.asF64M
  let fps ← v.timeline.format.fpsM
  let late ← divide |remaining| fps
  let alignmentErrorNs : WithTop ℚ :=
    if v.initialized then uncertaintyNs.map (fun u => u * |speed| + late * 1000000000) else ⊤
  pure
    { sessionId := v.timeline.sessionId
      position := if v.initialized then position else v.fallbackPosition
      format := if v.initialized then v.timeline.format else v.fallbackFormat
      rate := if v.initialized then rate else Rate.paused
      discontinuity := discontinuity
      status :=
        { connection := v.connection
          synchronization := if v.initialized then v.sync else .uninitialized
          sourceKind := v.timeline.sourceKind
          sourceHealth := v.timeline.sourceHealth
          uncertaintyNs := uncertaintyNs
          correctionFrames := if v.initialized then remaining else 0
          offsetEvidence := v.mapping.evidence.map (fun e => e.at localNs)
          sampleAgeNs := localNs - v.mapping.lastSampleNs
          rttNs := v.rttNs
          offsetNs := v.mapping.offsetAt localNs
          driftPpm := v.mapping.drift * 1000000
          lostPackets := v.lostPackets
          acceptedObservations := v.mapping.acceptedObservations
          alignmentErrorNs := alignmentErrorNs
          aligned := v.initialized && v.connection == .connected && v.sync == .synchronized &&
            !v.recovering && v.timeline.sourceHealth == .healthy &&
            v.mapping.evidence.all OffsetEvidence.consistent &&
            decide (alignmentErrorNs ≤ ((1000000 : ℚ) : WithTop ℚ))
          resyncGeneration := v.resyncGeneration } }

/-- What every reader is given. -/
structure Guarded (v : View) : Prop where
  fits : v.timeline.Fits
  slew_nonneg : 0 ≤ v.slewFramesPerSecond
  correction_le : |v.correctionFrames| ≤ 2 ^ 64
  drift_le : |v.mapping.drift| ≤ maxDrift

end View

theorem ClockMapping.leaderTime_le (m : ClockMapping) (localNs : Nat) :
    m.leaderTime localNs ≤ i64Max := by
  have hmin : max 0 (min ((localNs : ℚ) + m.offsetAt localNs) i64Max) ≤ ((i64Max : Nat) : ℚ) :=
    max_le (by positivity) (min_le_right _ _)
  have htrunc := trunc_mono hmin
  rw [trunc_natCast] at htrunc
  rw [leaderTime, asU64, toUnsigned]
  omega

namespace View

variable {v : View}

theorem Guarded.evaluationTime_le (h : v.Guarded) (localNs : Nat) :
    v.evaluationTime localNs ≤ i64Max := by
  unfold evaluationTime
  split_ifs
  · exact h.fits.time_le v.timeline.active List.mem_cons_self
  · exact v.mapping.leaderTime_le localNs

/-- A correction never grows. -/
theorem Guarded.abs_remaining_le (h : v.Guarded) (localNs : Nat) :
    |v.remaining localNs| ≤ |v.correctionFrames| := by
  have hsignum (x : ℚ) : |signum x| = 1 := by
    unfold signum
    split_ifs <;> norm_num
  have hslew := slewRate_nonneg h.slew_nonneg (v.entry localNs)
  rw [remaining_eq]
  split_ifs
  · have hleft : |v.correctionFrames| -
        ((localNs - v.correctionAt : Nat) : ℚ) * v.slewRate (v.entry localNs) ≤
          |v.correctionFrames| := by
      have hspent : 0 ≤ ((localNs - v.correctionAt : Nat) : ℚ) * v.slewRate (v.entry localNs) := by
        positivity
      linarith
    rw [abs_mul, hsignum, mul_one, abs_of_nonneg (le_max_right _ _)]
    exact max_le hleft (abs_nonneg _)
  · rw [abs_zero]
    exact abs_nonneg _

theorem Guarded.abs_correction_le (h : v.Guarded) (localNs : Nat) :
    |v.remaining localNs * q32| ≤ ((2 ^ 96 : Nat) : ℚ) := by
  have hbound := (h.abs_remaining_le localNs).trans h.correction_le
  rw [abs_mul, abs_of_pos q32_pos]
  calc
    |v.remaining localNs| * q32 ≤ 2 ^ 64 * q32 := mul_le_mul_of_nonneg_right hbound q32_pos.le
    _ = ((2 ^ 96 : Nat) : ℚ) := by norm_num [q32]

theorem Guarded.asI128_correction (h : v.Guarded) (localNs : Nat) :
    asI128 (v.remaining localNs * q32) = trunc (v.remaining localNs * q32) :=
  asI128_eq_trunc ((h.abs_correction_le localNs).trans (by norm_num))

/-- The corrected position is far from the bounds of `i128`. -/
theorem Guarded.corrected_has (h : v.Guarded) (localNs : Nat) (p : Position) :
    i128.Has (p.fixed + asI128 (v.remaining localNs * q32)) := by
  have hfixed := p.natAbs_fixed_le
  have hcorrection := natAbs_trunc_le (h.abs_correction_le localNs)
  rw [h.asI128_correction]
  apply i128_has
  omega

theorem remainingM_eq (v : View) (localNs : Nat) :
    v.remainingM localNs (v.timeline.at (v.evaluationTime localNs)).2.1
      (v.timeline.at (v.evaluationTime localNs)).2.2 = .ok (v.remaining localNs) := by
  rw [remainingM, FrameFormat.fpsM_eq, bind_ok, Rate.asF64M_eq, bind_ok]
  rfl

/-- A reading is computed without a panic at every local time. -/
theorem Guarded.evaluateM_eq (h : v.Guarded) (localNs : Nat) :
    v.evaluateM localNs = .ok (v.evaluate localNs) := by
  have hat := h.fits.atM_eq (h.evaluationTime_le localNs)
  have hfps := v.timeline.format.fps_pos.ne'
  have hcorrected := h.corrected_has localNs (v.timeline.at (v.evaluationTime localNs)).1
  rw [evaluateM, hat, bind_ok]
  simp only [remainingM_eq, Position.fixedM_eq, bind_ok, Signed.add_ok hcorrected,
    Position.fromFixedM_eq, Rate.asF64M_eq, FrameFormat.fpsM_eq, divide_ok hfps]
  rfl

/-! Deadlines. -/

section First

variable (p : Nat → Checked Bool)

/-- The loop of `first`. -/
def narrowM : Nat → Nat → Nat → Checked Nat
  | 0, lo, _ => pure lo
  | fuel + 1, lo, hi =>
      if lo < hi then do
        let width ← u64.sub hi lo
        let mid ← u64.add lo (width / 2)
        let holds ← p mid
        if holds then narrowM fuel lo mid
        else
          let next ← u64.add mid 1
          narrowM fuel next hi
      else pure lo

def firstM (lo hi : Nat) : Checked (Option Nat) :=
  if hi < lo then pure none
  else do
    let holds ← p hi
    if !holds then pure none
    else
      let t ← narrowM p (hi - lo) lo hi
      pure (some t)

variable {p} {q : Nat → Bool}

theorem narrowM_eq {fuel lo hi : Nat} (hhi : hi ≤ i64Max) (hp : ∀ t, p t = .ok (q t)) :
    narrowM p fuel lo hi = .ok (narrow q fuel lo hi) := by
  induction fuel generalizing lo hi with
  | zero => rfl
  | succ fuel ih =>
      rw [narrowM, narrow]
      by_cases hlt : lo < hi
      · obtain ⟨-, hmiddle⟩ := middle_mem hlt
        have hhi' := hhi
        simp only [i64Max] at hhi'
        have hadd : u64.add lo ((hi - lo) / 2) = .ok (middle lo hi) := by
          apply Unsigned.add_ok
          simp only [u64, u64Max]
          omega
        have hnext : u64.add (middle lo hi) 1 = .ok (middle lo hi + 1) := by
          apply Unsigned.add_ok
          simp only [u64, u64Max]
          omega
        rw [if_pos hlt, if_pos hlt, Unsigned.sub_ok hlt.le, bind_ok, hadd, bind_ok, hp, bind_ok]
        by_cases hholds : q (middle lo hi) = true
        · rw [if_pos hholds, if_pos hholds, ih (hmiddle.le.trans hhi)]
        · rw [if_neg hholds, if_neg hholds, hnext, bind_ok, ih hhi]
      · rw [if_neg hlt, if_neg hlt]
        rfl

theorem firstM_eq {lo hi : Nat} (hhi : hi ≤ i64Max) (hp : ∀ t, p t = .ok (q t)) :
    firstM p lo hi = .ok (first q lo hi) := by
  unfold firstM first
  by_cases hempty : hi < lo
  · rw [if_pos hempty, if_pos (Or.inl hempty)]
    rfl
  · rw [if_neg hempty, hp, bind_ok]
    cases hend : q hi with
    | false =>
        rw [if_pos (Or.inr rfl)]
        rfl
    | true =>
        rw [if_neg (by simp), narrowM_eq hhi hp, bind_ok, if_neg (by simpa using hempty)]
        rfl

end First

/-- `target`: the next integer strictly beyond a position, in Q32 units. -/
def frameTargetM (rate : Rate) (fixed : Int) : Checked Int :=
  if 0 < rate.numerator then do
    let frames ← i128.divEuclid fixed q32
    let next ← i128.add frames 1
    i128.mul next q32
  else do
    let frames ← i128.divEuclid fixed q32
    let fraction ← i128.remEuclid fixed q32
    let next ← i128.sub frames (if fraction = 0 then 1 else 0)
    i128.mul next q32

def reachedM (v : View) (rate : Rate) (target : Int) (localNs : Nat) : Checked Bool := do
  let reading ← v.evaluateM localNs
  let fixed ← reading.position.fixedM
  pure (if 0 < rate.numerator then target ≤ fixed else fixed ≤ target)

def changeDeadlineM (v : View) (localNs : Nat) : Checked (Option Nat) := do
  let live ← v.timeline.liveM
  match live.find? (fun s => v.mapping.leaderTime localNs < s.anchor.timeNs) with
  | none => pure none
  | some s =>
      firstM (fun t => pure (s.anchor.timeNs ≤ v.mapping.leaderTime t)) (localNs + 1) i64Max

def frameEndM (scheduled : Option Nat) : Checked Nat :=
  match scheduled with
  | none => pure i64Max
  | some t => u64.sub t 1

def frameDeadlineM (v : View) (rate : Rate) (target : Int) (localNs frameEnd : Nat) :
    Checked (Option Nat) :=
  if rate.numerator = 0 then pure none
  else firstM (v.reachedM rate target) (localNs + 1) frameEnd

def deadlineUncertaintyM (v : View) (reading : Reading) (deadline : Nat) (kind : BoundaryKind) :
    Checked (WithTop ℚ) :=
  let slowdown : ℚ := if kind = .frame ∧ reading.status.correctionFrames ≠ 0 then 1 / 10 else 0
  match (if v.localClock then 0 else v.mapping.uncertaintyAt deadline : WithTop ℚ) with
  | none => pure ⊤
  | some u => do
      let slowed ← divide u (1 + v.mapping.drift - slowdown)
      pure (slowed : WithTop ℚ)

def boundaryAtM (v : View) (reading : Reading) (deadline : Nat) (kind : BoundaryKind)
    (position : Position) : Checked Boundary := do
  let due ← v.evaluateM deadline
  let uncertaintyNs ← v.deadlineUncertaintyM reading deadline kind
  pure
    { localDeadlineNs := deadline
      position := position
      discontinuity := due.discontinuity
      kind := kind
      uncertaintyNs := uncertaintyNs }

def nextBoundaryM (v : View) (localNs : Nat) : Checked (Option Boundary) := do
  let reading ← v.evaluateM localNs
  -- `checked_add`
  if u64Max < localNs + 1 then pure none
  else if i64Max < localNs + 1 ∨ reading.status.synchronization = .uninitialized then pure none
  else
    let scheduled ← v.changeDeadlineM localNs
    let frameEnd ← frameEndM scheduled
    let fixed ← reading.position.fixedM
    let target ← frameTargetM reading.rate fixed
    let frame ← v.frameDeadlineM reading.rate target localNs frameEnd
    match frame with
    | some t => do
        let position ← Position.fromFixedM target
        let boundary ← v.boundaryAtM reading t .frame position
        pure (some boundary)
    | none =>
        match scheduled with
        | none => pure none
        | some t => do
            let due ← v.evaluateM t
            let boundary ← v.boundaryAtM reading t .scheduledChange due.position
            pure (some boundary)

theorem frameTargetM_eq (rate : Rate) {fixed : Int} (h : fixed.natAbs ≤ 2 ^ 95) :
    frameTargetM rate fixed = .ok (frameTarget rate fixed) := by
  have hframes : (fixed / q32).natAbs ≤ 2 ^ 63 := by
    simp only [q32]
    omega
  have hquotient : i128.Has (fixed / q32) := i128_has (by omega)
  have hunit : q32 ≠ 0 := by decide
  unfold frameTargetM frameTarget
  by_cases hforward : 0 < rate.numerator
  · rw [if_pos hforward, if_pos hforward]
    have hnext : i128.Has (fixed / q32 + 1) := i128_has (by omega)
    have htarget : i128.Has ((fixed / q32 + 1) * q32) := i128_has (by
      simp only [q32] at hframes ⊢
      omega)
    rw [Signed.divEuclid_ok hunit hquotient, bind_ok, Signed.add_ok hnext, bind_ok,
      Signed.mul_ok htarget]
  · rw [if_neg hforward, if_neg hforward]
    have hstep : (if fixed % q32 = 0 then (1 : Int) else 0).natAbs ≤ 1 := by
      split_ifs <;> decide
    generalize hback : (if fixed % q32 = 0 then (1 : Int) else 0) = back at hstep ⊢
    have hnext : i128.Has (fixed / q32 - back) := i128_has (by omega)
    have htarget : i128.Has ((fixed / q32 - back) * q32) := i128_has (by
      simp only [q32] at hframes ⊢
      omega)
    rw [Signed.divEuclid_ok hunit hquotient, bind_ok, Signed.remEuclid_ok hunit hquotient,
      bind_ok, hback, Signed.sub_ok hnext, bind_ok, Signed.mul_ok htarget]

theorem Guarded.reachedM_eq (h : v.Guarded) (rate : Rate) (target : Int) (localNs : Nat) :
    v.reachedM rate target localNs = .ok (v.reached rate target localNs) := by
  rw [reachedM, h.evaluateM_eq, bind_ok, Position.fixedM_eq, bind_ok, reached]
  split_ifs <;> rfl

theorem Guarded.changeDeadlineM_eq (h : v.Guarded) (localNs : Nat) :
    v.changeDeadlineM localNs = .ok (v.changeDeadline localNs) := by
  rw [changeDeadlineM, Timeline.liveM, slice_ok h.fits.capacity, bind_ok, changeDeadline,
    unapplied]
  cases v.timeline.scheduled.find? (fun s => v.mapping.leaderTime localNs < s.anchor.timeNs) with
  | none => rfl
  | some s => exact firstM_eq le_rfl (fun _ => rfl)

theorem changeDeadline_mem {localNs t : Nat} (h : v.changeDeadline localNs = some t) :
    localNs + 1 ≤ t ∧ t ≤ i64Max := by
  obtain ⟨s, -, hfirst⟩ := Option.bind_eq_some_iff.mp h
  exact ⟨(first_spec hfirst).1, (first_spec hfirst).2.1⟩

theorem frameEnd_le (v : View) (localNs : Nat) : v.frameEnd localNs ≤ i64Max := by
  unfold frameEnd
  cases hchange : v.changeDeadline localNs with
  | none => exact le_rfl
  | some t => exact (Nat.sub_le t 1).trans (changeDeadline_mem hchange).2

theorem frameEndM_eq (v : View) (localNs : Nat) :
    frameEndM (v.changeDeadline localNs) = .ok (v.frameEnd localNs) := by
  unfold frameEndM frameEnd
  cases hchange : v.changeDeadline localNs with
  | none => rfl
  | some t =>
      exact Unsigned.sub_ok ((Nat.le_add_left 1 localNs).trans (changeDeadline_mem hchange).1)

/-- The slower clock of a reader still runs forwards. -/
theorem Guarded.deadlineUncertaintyM_eq (h : v.Guarded) (localNs deadline : Nat)
    (kind : BoundaryKind) :
    v.deadlineUncertaintyM (v.evaluate localNs) deadline kind =
      .ok (v.deadlineUncertainty localNs deadline kind) := by
  have hdrift := (abs_le.mp h.drift_le).1
  simp only [maxDrift] at hdrift
  unfold deadlineUncertaintyM deadlineUncertainty
  generalize hslowdown : (if kind = .frame ∧ (v.evaluate localNs).status.correctionFrames ≠ 0
    then (1 / 10 : ℚ) else 0) = slowdown
  have hbound : slowdown ≤ 1 / 10 := by
    rw [← hslowdown]
    split_ifs <;> norm_num
  have hne : 1 + v.mapping.drift - slowdown ≠ 0 := by
    have hpos : 0 < 1 + v.mapping.drift - slowdown := by linarith
    exact hpos.ne'
  cases (if v.localClock then 0 else v.mapping.uncertaintyAt deadline : WithTop ℚ) with
  | top => rfl
  | coe u =>
      change (do
        let slowed ← divide u (1 + v.mapping.drift - slowdown)
        pure (slowed : WithTop ℚ)) = _
      rw [divide_ok hne, bind_ok]
      rfl

theorem Guarded.boundaryAtM_eq (h : v.Guarded) (localNs deadline : Nat) (kind : BoundaryKind)
    (position : Position) :
    v.boundaryAtM (v.evaluate localNs) deadline kind position =
      .ok (v.boundaryAt localNs deadline kind position) := by
  rw [boundaryAtM, h.evaluateM_eq, bind_ok, h.deadlineUncertaintyM_eq, bind_ok]
  rfl

/-- A deadline is found without a panic from every local time. -/
theorem Guarded.nextBoundaryM_eq (h : v.Guarded) (localNs : Nat) :
    v.nextBoundaryM localNs = .ok (v.nextBoundary localNs) := by
  have hend := v.frameEnd_le localNs
  have htarget := frameTargetM_eq (v.evaluate localNs).rate
    (v.evaluate localNs).position.natAbs_fixed_le
  have hframe : v.frameDeadlineM (v.evaluate localNs).rate (v.target localNs) localNs
      (v.frameEnd localNs) = .ok (v.frameDeadline localNs) := by
    unfold frameDeadlineM frameDeadline
    split_ifs
    · rfl
    · exact firstM_eq hend (h.reachedM_eq _ _)
  rw [nextBoundaryM, h.evaluateM_eq, bind_ok, nextBoundary]
  split_ifs with hrange hclosed
  · rfl
  · rfl
  · rw [h.changeDeadlineM_eq, bind_ok, frameEndM_eq, bind_ok, Position.fixedM_eq, bind_ok,
      htarget, bind_ok, ← target, hframe, bind_ok]
    cases v.frameDeadline localNs with
    | some t =>
        simp only [Position.fromFixedM_eq, bind_ok, h.boundaryAtM_eq]
        rfl
    | none =>
        cases v.changeDeadline localNs with
        | none => rfl
        | some t =>
            simp only [h.evaluateM_eq, bind_ok, h.boundaryAtM_eq]
            rfl

end View

/-- The speed of a slew over an error. -/
def CorrectionPolicy.slewM (p : CorrectionPolicy) (error : ℚ) : Checked ℚ :=
  if p.settleTimeNs = 0 then pure p.slewFramesPerSecond
  else divide (|error| * 1000000000) p.settleTimeNs

theorem CorrectionPolicy.slewM_eq (p : CorrectionPolicy) (error : ℚ) :
    p.slewM error = .ok
      (if p.settleTimeNs = 0 then p.slewFramesPerSecond
      else |error| * 1000000000 / p.settleTimeNs) := by
  unfold slewM
  split_ifs with hlegacy
  · rfl
  · exact divide_ok (by exact_mod_cast hlegacy)

namespace FollowerCore

def correctM (c : FollowerCore) (before : Position) (now : Nat) (measurement : Bool) :
    Checked (FollowerCore × Option Correction) := do
  let (desired, _, disc) ← c.view.timeline.atM (c.view.mapping.leaderTime now)
  let beforeFixed ← before.fixedM
  let desiredFixed ← desired.fixedM
  let distance ← i128.sub beforeFixed desiredFixed
  let error := (distance : ℚ) / q32
  let c := c.countLarge error measurement
  if c.policy.hardThresholdFrames < |error| ∧ c.policy.confirmations ≤ c.large then
    pure
      ({ c with
          large := 0
          view :=
            { c.view with
              correctionFrames := 0
              resyncGeneration := min (c.view.resyncGeneration + 1) u64Max } },
        some (.hardResync (-error)))
  else
    let slew ← c.policy.slewM error
    pure
      ({ c with
          view :=
            { c.view with
              correctionFrames := error
              slewFramesPerSecond := slew
              correctionAt := now
              correctionDiscontinuity := disc } },
        some (.slew (-error)))

def refreshM (c : FollowerCore) (t : Timeline) (now : Nat) :
    Checked (FollowerCore × Option Correction) := do
  let before ← c.view.evaluateM now
  let t ← t.latchM (max c.view.timeline.discontinuity before.discontinuity)
  if t.discontinuity < before.discontinuity ∨
      (t.format ≠ c.view.timeline.format ∧ t.discontinuity = before.discontinuity) then
    pure (c, none)
  else
    let c := { c with view := { c.view with timeline := t } }
    let (_, _, disc) ← t.atM (c.view.mapping.leaderTime now)
    if disc ≠ before.discontinuity then pure (c.discontinue disc)
    else c.correctM before.position now false

/-- The reading before a new session is computed although nothing uses it. -/
def stateM (c : FollowerCore) (t : Timeline) (now : Nat) :
    Checked (FollowerCore × Option Correction) :=
  if c.expectedSession.any (fun s => s ≠ t.session) then pure (c, none)
  else
    let c := { c with expectedSession := some t.session }
    if c.view.timeline.session ≠ t.session then do
      let _ ← c.view.evaluateM now
      pure (c.adopt t)
    else if t.revision ≤ c.view.timeline.revision then pure (c, none)
    else c.refreshM t now

def applyMappingM (c : FollowerCore) (before : Reading) (now : Nat) :
    Checked (FollowerCore × Option Correction) := do
  let acquired := c.everLocked
  let mapping := c.estimator.mapping
  let c :=
    { c with
      everLocked := c.everLocked || mapping.converged
      view :=
        { c.view with
          mapping := mapping
          sync := if mapping.converged then .synchronized else .acquiring } }
  let (desired, _, disc) ← c.view.timeline.atM (mapping.leaderTime now)
  if !acquired then
    let desiredFixed ← desired.fixedM
    let beforeFixed ← before.position.fixedM
    let distance ← i128.sub desiredFixed beforeFixed
    pure
      ({ c with
          view :=
            { c.view with
              correctionFrames := 0
              resyncGeneration := min (c.view.resyncGeneration + 1) u64Max } },
        some (.hardResync ((distance : ℚ) / q32)))
  else if disc ≠ before.discontinuity then pure (c.discontinue disc)
  else c.correctM before.position now true

def measurementTimedM (c : FollowerCore) (e : Exchange) (publicationNs : Option Nat)
    (processedNs : Nat) : Checked (FollowerCore × Option Correction) :=
  if c.expectedSession.isNone then pure (c, none)
  else do
    let now := measurementTime e processedNs
    let before ← c.view.evaluateM now
    let (estimator, accepted) ← c.estimator.observeTimedM e publicationNs processedNs
    let c :=
      { c with
        estimator := estimator
        view := { c.view with recovering := estimator.recovering } }
    if !accepted then pure (c, none)
    else c.applyMappingM before now

def tickM (c : FollowerCore) (now staleAfter : Nat) :
    Checked (FollowerCore × Option Correction) :=
  if c.view.mapping.lastSampleNs = 0 then pure (c, none)
  else do
    let (_, _, disc) ← c.view.timeline.atM (c.view.mapping.leaderTime now)
    let latched ← c.view.timeline.latchM disc
    let key := (c.view.timeline.session, disc)
    let previous := c.reportedDiscontinuity
    let c :=
      { c with
        view :=
          { c.view with
            sync :=
              if staleAfter < now - c.view.mapping.lastSampleNs then .holdover else c.view.sync
            timeline := latched }
        reportedDiscontinuity := some key }
    if previous.any (fun p => p.1 = key.1 ∧ p.2 ≠ key.2) then
      pure ({ c with large := 0, largeSign := 0 }, some (.discontinuity key.2))
    else pure (c, none)

/-- The timeline fits, and the correction that is under way is bounded. -/
structure Contained (c : FollowerCore) : Prop where
  fits : c.view.timeline.Fits
  policy_nonneg : 0 ≤ c.policy.slewFramesPerSecond
  slew_nonneg : 0 ≤ c.view.slewFramesPerSecond
  correction_le : |c.view.correctionFrames| ≤ 2 ^ 64

/-- What keeps the operations of a follower from panicking. -/
structure Guarded (c : FollowerCore) : Prop extends Contained c where
  inv : c.Inv

variable {c : FollowerCore}

theorem Guarded.view (h : c.Guarded) : c.view.Guarded where
  fits := h.fits
  slew_nonneg := h.slew_nonneg
  correction_le := h.correction_le
  drift_le := by
    rw [h.inv.mapping]
    exact h.inv.regular.drift

theorem sub_fixed_has (p q : Position) : i128.Has (p.fixed - q.fixed) := by
  have hp := p.natAbs_fixed_le
  have hq := q.natAbs_fixed_le
  apply i128_has
  omega

theorem correctM_eq (h : c.view.timeline.Fits) (before : Position) (now : Nat)
    (measurement : Bool) :
    c.correctM before now measurement = .ok (c.correct before now measurement) := by
  have hat := h.atM_eq (c.view.mapping.leaderTime_le now)
  simp only [correctM, hat, bind_ok, Position.fixedM_eq, Signed.sub_ok (sub_fixed_has _ _),
    CorrectionPolicy.slewM_eq, correct]
  split_ifs <;> rfl

theorem refreshM_eq (h : c.view.Guarded) {t : Timeline} (ht : t.Fits) (now : Nat) :
    c.refreshM t now = .ok (c.refresh t now) := by
  have hlatched : (c.follow t now).view.timeline.Fits := ht.latch _
  have hat := hlatched.atM_eq (c.view.mapping.leaderTime_le now)
  have hcorrect := correctM_eq hlatched (c.view.evaluate now).position now false
  simp only [follow, latched] at hat
  rw [refreshM, h.evaluateM_eq, bind_ok, Timeline.latchM_eq, bind_ok, View.evaluate_discontinuity]
  simp only [hat, bind_ok]
  change (if c.RollsBack t now then .ok (c, none)
      else if (c.latched t now).discontinuityAt (c.view.mapping.leaderTime now) ≠
          c.view.discontinuity now then
        .ok ((c.follow t now).discontinue
          ((c.latched t now).discontinuityAt (c.view.mapping.leaderTime now)))
      else (c.follow t now).correctM (c.view.evaluate now).position now false : Checked _) = _
  rw [hcorrect, refresh_eq]
  split_ifs <;> rfl

theorem Guarded.stateM_eq (h : c.Guarded) {t : Timeline} (ht : t.Fits) (now : Nat) :
    c.stateM t now = .ok (c.state t now) := by
  have hview : (c.pin t.session).view.Guarded := h.view
  have hrefresh := refreshM_eq hview ht now
  simp only [stateM, h.view.evaluateM_eq, bind_ok]
  change (if c.expectedSession.any (fun s => s ≠ t.session) then .ok (c, none)
      else if c.view.timeline.session ≠ t.session then .ok ((c.pin t.session).adopt t)
      else if t.revision ≤ c.view.timeline.revision then .ok (c.pin t.session, none)
      else (c.pin t.session).refreshM t now : Checked _) = _
  rw [hrefresh, state_eq]
  split_ifs <;> rfl

theorem applyMappingM_eq (h : c.view.timeline.Fits) (before : Reading) (now : Nat) :
    c.applyMappingM before now = .ok (c.applyMapping before now) := by
  have hat := h.atM_eq (c.estimator.mapping.leaderTime_le now)
  have hmapped : c.mapped.view.timeline.Fits := h
  have hcorrect := correctM_eq hmapped before.position now true
  rw [applyMappingM, hat, bind_ok]
  simp only [Position.fixedM_eq, bind_ok, Signed.sub_ok (sub_fixed_has _ _)]
  change (if !c.everLocked then
        .ok (c.mapped.realigned, some (.hardResync
          (((c.view.timeline.at (c.estimator.mapping.leaderTime now)).1.fixed -
            before.position.fixed : Int) / q32)))
      else if c.view.timeline.discontinuityAt (c.estimator.mapping.leaderTime now) ≠
          before.discontinuity then
        .ok (c.mapped.discontinue
          (c.view.timeline.discontinuityAt (c.estimator.mapping.leaderTime now)))
      else c.mapped.correctM before.position now true : Checked _) = _
  rw [hcorrect, applyMapping_eq]
  split_ifs <;> rfl

theorem Guarded.measurementTimedM_eq (h : c.Guarded) (e : Exchange) (publicationNs : Option Nat)
    (processedNs : Nat) :
    c.measurementTimedM e publicationNs processedNs =
      .ok (c.measurementTimed e publicationNs processedNs) := by
  simp only [measurementTimedM, h.view.evaluateM_eq, bind_ok, ClockEstimator.observeTimedM_eq,
    measurementTimed]
  split_ifs
  · rfl
  · rfl
  · apply applyMappingM_eq
    exact h.fits

theorem Guarded.tickM_eq (h : c.Guarded) (now staleAfter : Nat) :
    c.tickM now staleAfter = .ok (c.tick now staleAfter) := by
  have hat := h.fits.atM_eq (c.view.mapping.leaderTime_le now)
  rw [tickM, hat, bind_ok, tick_eq]
  simp only [Timeline.latchM_eq, bind_ok]
  change (if c.view.mapping.lastSampleNs = 0 then .ok (c, none)
      else if c.reportedDiscontinuity.any
          (fun p => p.1 = c.view.timeline.session ∧ p.2 ≠ c.tickDiscontinuity now) then
        .ok ({ c.ticked now staleAfter with large := 0, largeSign := 0 },
          some (Correction.discontinuity (c.tickDiscontinuity now)))
      else .ok (c.ticked now staleAfter, none) : Checked _) = _
  split_ifs <;> rfl

theorem abs_trajectoryError_le (c : FollowerCore) (before : Position) (now : Nat) :
    |c.trajectoryError before now| ≤ 2 ^ 64 := by
  have hbefore := before.natAbs_fixed_le
  have hdesired := (c.view.timeline.at (c.view.mapping.leaderTime now)).1.natAbs_fixed_le
  unfold trajectoryError
  generalize (c.view.timeline.at (c.view.mapping.leaderTime now)).1.fixed = desired at hdesired ⊢
  have hdistance : |before.fixed - desired| ≤ 2 ^ 96 := by
    rw [Int.abs_eq_natAbs]
    omega
  have hcast : |((before.fixed - desired : Int) : ℚ)| ≤ 2 ^ 96 := by exact_mod_cast hdistance
  rw [abs_div, abs_of_pos q32_pos, div_le_iff₀ q32_pos]
  exact hcast.trans (by norm_num [q32])

/-- A new correction is the distance of two positions. -/
theorem Contained.correct (h : c.Contained) (before : Position) (now : Nat) (measurement : Bool) :
    (c.correct before now measurement).1.Contained := by
  have herror := c.abs_trajectoryError_le before now
  have houtcome := correct_outcome c before now measurement
  generalize c.correct before now measurement = result at houtcome ⊢
  cases houtcome with
  | resynced => exact ⟨h.fits, h.policy_nonneg, h.slew_nonneg, by simp [realigned]⟩
  | slewed =>
      refine ⟨h.fits, h.policy_nonneg, ?_, herror⟩
      simp only [slewing]
      split_ifs
      · exact h.policy_nonneg
      · positivity

theorem Contained.cleared (h : c.Contained) {d : FollowerCore} (hfits : d.view.timeline.Fits)
    (hpolicy : d.policy = c.policy)
    (hslew : d.view.slewFramesPerSecond = c.view.slewFramesPerSecond)
    (hzero : d.view.correctionFrames = 0) : d.Contained :=
  ⟨hfits, hpolicy ▸ h.policy_nonneg, hslew ▸ h.slew_nonneg, by rw [hzero]; norm_num⟩

theorem Contained.state (h : c.Contained) {t : Timeline} (ht : t.Fits) (now : Nat) :
    (c.state t now).1.Contained := by
  have hlatched : (c.latched t now).Fits := ht.latch _
  have houtcome := state_outcome c t now
  generalize c.state t now = result at houtcome ⊢
  cases houtcome with
  | foreign => exact h
  | adopted => exact h.cleared ht rfl rfl rfl
  | refused => exact ⟨h.fits, h.policy_nonneg, h.slew_nonneg, h.correction_le⟩
  | jumped => exact h.cleared hlatched rfl rfl rfl
  | refined =>
      have hfollow : ((c.pin t.session).follow t now).Contained :=
        ⟨hlatched, h.policy_nonneg, h.slew_nonneg, h.correction_le⟩
      exact hfollow.correct _ _ _

theorem Contained.measurementTimed (h : c.Contained) (e : Exchange) (publicationNs : Option Nat)
    (processedNs : Nat) : (c.measurementTimed e publicationNs processedNs).1.Contained := by
  have houtcome := measurementTimed_outcome c e publicationNs processedNs
  generalize c.measurementTimed e publicationNs processedNs = result at houtcome ⊢
  cases houtcome with
  | unpinned => exact h
  | rejected => exact ⟨h.fits, h.policy_nonneg, h.slew_nonneg, h.correction_le⟩
  | acquired => exact h.cleared h.fits rfl rfl rfl
  | jumped => exact h.cleared h.fits rfl rfl rfl
  | refined =>
      have hmapped : (c.observed e publicationNs processedNs).mapped.Contained :=
        ⟨h.fits, h.policy_nonneg, h.slew_nonneg, h.correction_le⟩
      exact hmapped.correct _ _ _

theorem Contained.tick (h : c.Contained) (now staleAfter : Nat) :
    (c.tick now staleAfter).1.Contained := by
  have hlatched : (c.ticked now staleAfter).view.timeline.Fits := h.fits.latch _
  have houtcome := tick_outcome c now staleAfter
  generalize c.tick now staleAfter = result at houtcome ⊢
  cases houtcome with
  | unknown => exact h
  | reported => exact ⟨hlatched, h.policy_nonneg, h.slew_nonneg, h.correction_le⟩
  | silent => exact ⟨hlatched, h.policy_nonneg, h.slew_nonneg, h.correction_le⟩

theorem guarded_new (position : Position) (format : FrameFormat) {policy : CorrectionPolicy}
    (h : 0 ≤ policy.slewFramesPerSecond) : (new (fallback position format) policy).Guarded where
  fits := Timeline.fits_fallback position format
  policy_nonneg := h
  slew_nonneg := h
  correction_le := by simp [new, View.default]
  inv := inv_new position format policy

/-- Every operation keeps the follower guarded. -/
theorem Guarded.step (h : c.Guarded) (op : Op) : (c.step op).1.Guarded where
  inv := h.inv.step op
  toContained := by
    cases op with
    | connected => exact ⟨h.fits, h.policy_nonneg, h.slew_nonneg, h.correction_le⟩
    | disconnected => exact ⟨h.fits, h.policy_nonneg, h.slew_nonneg, h.correction_le⟩
    | state t now => exact h.toContained.state t.valid.fits now
    | measurementTimed e publicationNs processedNs => exact h.toContained.measurementTimed e _ _
    | tick now staleAfter => exact h.toContained.tick now staleAfter

end FollowerCore

end Tidkod
