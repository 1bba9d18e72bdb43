import Mathlib.Tactic
import Mathlib.Algebra.Order.Archimedean.Real.Basic
import Tidkod.Protocol.FollowerOutput
import Tidkod.Protocol.Motion

/-!
What the published alignment error promises. A reader that is wrong about the
leader's time by at most the uncertainty it publishes shows a position that
differs from the leader's by the playback over that error and by the correction
that is still left, which is the published bound. Truncation of the two
positions and of the leader's reading of its own clock comes on top. A reader of
a local clock publishes no uncertainty, so there the promise is about its own
leader time and not about one within the uncertainty of the mapping.
-/

namespace Tidkod

open Rounding TimedQueue

/-- Distance of two positions in frames. -/
def Position.distance (p q : Position) : ℚ := |((p.fixed - q.fixed : Int) : ℚ)| / q32

namespace View

/-- The trajectory a view shows at a local time is the one the leader follows at
its own reading of the clock. -/
structure Shows (v : View) (leader : Timeline) (localNs reading : Nat) : Prop where
  format : v.timeline.format = leader.format
  anchor : (v.timeline.current (v.mapping.leaderTime localNs)).anchor =
    (leader.current reading).anchor

/-- A view of the leader's own timeline shows its trajectory when no scheduled
change lies between the estimated and the true leader time. -/
theorem shows_of_no_change {v : View} {localNs reading : Nat}
    (h : ∀ s ∈ v.timeline.scheduled,
      s.timeNs ≤ v.mapping.leaderTime localNs ↔ s.timeNs ≤ reading) :
    v.Shows v.timeline localNs reading where
  format := rfl
  anchor := congrArg Scheduled.anchor (current_of_same_due v.timeline.active h)

/-- The published state tells whether there is a clock. -/
theorem initialized_of_synchronization {v : View} {localNs : Nat}
    (h : (v.evaluate localNs).status.synchronization ≠ .uninitialized) :
    v.initialized = true ∧ v.sync ≠ .uninitialized := by
  change (if v.initialized then v.sync else SyncState.uninitialized) ≠ .uninitialized at h
  split_ifs at h with hinitialized
  · exact ⟨hinitialized, h⟩
  · exact absurd rfl h

/-- The entry of the timeline that a view evaluates. -/
def entry (v : View) (localNs : Nat) : Scheduled := v.timeline.current (v.evaluationTime localNs)

theorem evaluate_entry {v : View} (h : v.initialized = true) (localNs : Nat) :
    (v.evaluate localNs).position =
      Position.fromFixed (((v.entry localNs).anchor.at (v.evaluationTime localNs)
        v.timeline.format).fixed + asI128 (v.remaining localNs * q32)) := by
  rw [evaluate_position h, Timeline.at_eq_current]
  rfl

theorem evaluate_rate {v : View} (h : v.initialized = true) (localNs : Nat) :
    (v.evaluate localNs).rate = (v.entry localNs).anchor.rate := by
  simp only [evaluate, Timeline.at_eq_current, h, if_true]
  rfl

theorem evaluate_format {v : View} (h : v.initialized = true) (localNs : Nat) :
    (v.evaluate localNs).format = v.timeline.format := by
  simp only [evaluate, h, if_true]

/-- The published alignment error is the playback over the published uncertainty
and the remaining correction, in nominal time. -/
theorem evaluate_alignmentErrorNs {v : View} (h : v.initialized = true) {localNs : Nat} {u : ℚ}
    (hu : (v.evaluate localNs).status.uncertaintyNs = (u : WithTop ℚ)) :
    (v.evaluate localNs).status.alignmentErrorNs =
      ((u * |(v.evaluate localNs).rate.asF64| + |v.remaining localNs| /
        (v.evaluate localNs).format.fps * 1000000000 : ℚ) : WithTop ℚ) := by
  rw [v.evaluate_rate h, v.evaluate_format h]
  change (if v.localClock then 0 else v.mapping.uncertaintyAt localNs) = _ at hu
  simp only [evaluate, Timeline.at_eq_current, h, if_true, hu]
  rfl

theorem alignmentErrorNs_le_of_aligned {v : View} {localNs : Nat}
    (h : (v.evaluate localNs).status.aligned = true) :
    (v.evaluate localNs).status.alignmentErrorNs ≤ ((1000000 : ℚ) : WithTop ℚ) := by
  simp only [evaluate, Bool.and_eq_true, decide_eq_true_eq] at h
  exact h.2

/-- The shown position against the trajectory at any other leader time: playback
over the difference, the remaining correction, and one unit of rounding. -/
theorem abs_position_sub_le {v : View} (h : v.initialized = true) (localNs time : Nat) :
    |(((v.evaluate localNs).position.fixed -
        ((v.entry localNs).anchor.at time v.timeline.format).fixed : Int) : ℚ)| ≤
      |(v.evaluationTime localNs : ℚ) - time| *
          |velocity v.timeline.format (v.entry localNs).anchor.rate| +
        |v.remaining localNs| * q32 + 1 := by
  have hmotion := (v.entry localNs).anchor.abs_fixed_at_sub_le v.timeline.format
    (v.evaluationTime localNs) time
  have hcorrection : |((asI128 (v.remaining localNs * q32) : Int) : ℚ)| ≤
      |v.remaining localNs| * q32 := by
    have hcast := abs_toSigned_le (by decide : i128Min ≤ 0) (by decide : 0 ≤ i128Max)
      (v.remaining localNs * q32)
    rwa [abs_mul, abs_of_pos q32_pos] at hcast
  -- The other position lies in range, so clamping brings the two no further apart.
  have hclamp : |(((v.evaluate localNs).position.fixed -
      ((v.entry localNs).anchor.at time v.timeline.format).fixed : Int) : ℚ)| ≤
        |((((v.entry localNs).anchor.at (v.evaluationTime localNs) v.timeline.format).fixed +
          asI128 (v.remaining localNs * q32) -
            ((v.entry localNs).anchor.at time v.timeline.format).fixed : Int) : ℚ)| := by
    obtain ⟨hlo, hhi⟩ := ((v.entry localNs).anchor.at time v.timeline.format).fixed_mem
    have hstep := abs_clamp_sub_le Position.fixedMin Position.fixedMax
      (((v.entry localNs).anchor.at (v.evaluationTime localNs) v.timeline.format).fixed +
        asI128 (v.remaining localNs * q32))
      ((v.entry localNs).anchor.at time v.timeline.format).fixed
    rw [clamp_of_mem hlo hhi, ← Position.fixed_fromFixed, ← evaluate_entry h] at hstep
    exact_mod_cast hstep
  push_cast at hclamp hmotion ⊢
  rw [abs_le] at hmotion hcorrection
  refine hclamp.trans (abs_le.mpr ⟨?_, ?_⟩)
  · linarith [hmotion.1, hcorrection.1]
  · linarith [hmotion.2, hcorrection.2]

end View

/-- A leader reads its clock in whole nanoseconds. -/
theorem abs_sub_reading_le {time : Nat} {truth : ℝ} {u : ℚ} (h : |(time : ℝ) - truth| ≤ (u : ℝ)) :
    |(time : ℚ) - ⌊truth⌋₊| ≤ u + 1 := by
  have hreal : |(time : ℝ) - (⌊truth⌋₊ : ℝ)| ≤ (u : ℝ) + 1 := by
    obtain ⟨hlo, hhi⟩ := abs_le.mp h
    rcases le_total 0 truth with hpos | hneg
    · have hfloor := Nat.floor_le hpos
      have hnext := Nat.lt_floor_add_one truth
      rw [abs_le]
      constructor <;> linarith
    · have htime : (0 : ℝ) ≤ time := Nat.cast_nonneg time
      rw [Nat.floor_of_nonpos hneg, Nat.cast_zero, sub_zero, abs_of_nonneg htime]
      linarith
  exact_mod_cast hreal

/-- At every local time at which the leader time is within the published
uncertainty of the truth, the shown position is within the published alignment
error of the leader's, up to the playback of one nanosecond and two Q32 units; a
reading published as aligned is within a millisecond of nominal frame time. -/
theorem alignment_error_bounds_distance {v : View} {leader : Timeline} {localNs : Nat}
    {truth : ℝ} {u : ℚ}
    (hclock : (v.evaluate localNs).status.synchronization ≠ .uninitialized)
    (hshows : v.Shows leader localNs ⌊truth⌋₊)
    (hu : (v.evaluate localNs).status.uncertaintyNs = (u : WithTop ℚ))
    (herror : |(v.mapping.leaderTime localNs : ℝ) - truth| ≤ (u : ℝ)) :
    (∃ err : ℚ, (v.evaluate localNs).status.alignmentErrorNs = (err : WithTop ℚ) ∧
      (v.evaluate localNs).position.distance (leader.at ⌊truth⌋₊).1 ≤
        err / 1000000000 * (v.evaluate localNs).format.fps +
          |(v.evaluate localNs).rate.asF64| * (v.evaluate localNs).format.fps / 1000000000 +
          2 / q32) ∧
    ((v.evaluate localNs).status.aligned = true →
      (v.evaluate localNs).position.distance (leader.at ⌊truth⌋₊).1 ≤
        1 / 1000 * (v.evaluate localNs).format.fps +
          |(v.evaluate localNs).rate.asF64| * (v.evaluate localNs).format.fps / 1000000000 +
          2 / q32) := by
  obtain ⟨hinitialized, hsync⟩ := View.initialized_of_synchronization hclock
  have halignment := v.evaluate_alignmentErrorNs hinitialized hu
  have hfps := v.timeline.format.fps_pos
  have hreading := abs_sub_reading_le herror
  have hleader : (leader.at ⌊truth⌋₊).1 =
      (v.entry localNs).anchor.at ⌊truth⌋₊ v.timeline.format := by
    rw [Timeline.at_eq_current, View.entry, View.evaluationTime_of_ne hsync, hshows.anchor,
      hshows.format]
  have hposition := View.abs_position_sub_le hinitialized localNs ⌊truth⌋₊
  rw [← hleader, View.evaluationTime_of_ne hsync, abs_velocity,
    ← v.evaluate_rate hinitialized] at hposition
  rw [v.evaluate_format hinitialized] at halignment ⊢
  obtain ⟨rate, hrate⟩ : ∃ rate, |(v.evaluate localNs).rate.asF64| = rate := ⟨_, rfl⟩
  have hrateNonneg : 0 ≤ rate := hrate ▸ abs_nonneg _
  rw [hrate] at hposition halignment ⊢
  have hq32 := q32_pos
  -- The playback over the error of the reading, in Q32 units.
  have hplayback : |(v.mapping.leaderTime localNs : ℚ) - ⌊truth⌋₊| *
      (v.timeline.format.fps * rate / 1000000000 * q32) ≤
        (u + 1) * (v.timeline.format.fps * rate / 1000000000 * q32) := by
    have hvelocity : 0 ≤ v.timeline.format.fps * rate / 1000000000 * q32 := by positivity
    exact mul_le_mul_of_nonneg_right hreading hvelocity
  have hdistance : (v.evaluate localNs).position.distance (leader.at ⌊truth⌋₊).1 ≤
      (u * rate + |v.remaining localNs| / v.timeline.format.fps * 1000000000) / 1000000000 *
        v.timeline.format.fps + rate * v.timeline.format.fps / 1000000000 + 2 / q32 := by
    rw [Position.distance, div_le_iff₀ hq32]
    have hexpand : ((u * rate + |v.remaining localNs| / v.timeline.format.fps * 1000000000) /
        1000000000 * v.timeline.format.fps + rate * v.timeline.format.fps / 1000000000 +
          2 / q32) * q32 =
        (u + 1) * (v.timeline.format.fps * rate / 1000000000 * q32) +
          |v.remaining localNs| * q32 + 2 := by
      field_simp
      ring
    rw [hexpand]
    linarith
  refine ⟨⟨_, halignment, hdistance⟩, ?_⟩
  intro haligned
  have hlimit := View.alignmentErrorNs_le_of_aligned haligned
  rw [halignment, WithTop.coe_le_coe] at hlimit
  have hscaled := mul_le_mul_of_nonneg_right hlimit hfps.le
  linarith

/-- A follower of the sample timeline with a clock known to 100 µs and a fiftieth
of a frame to slew. -/
def alignedView : View :=
  { View.default with
    timeline := sampleTimeline
    mapping :=
      { ClockMapping.default with
        uncertaintyNs := 100000
        lastSampleNs := 1000000000
        converged := true }
    connection := .connected
    sync := .synchronized
    correctionFrames := -1 / 50
    correctionAt := 1000000000 }

/-- Read 50 ms after its last sample, 150 µs ahead of the leader. -/
theorem alignment_error_bounds_distance_of_alignedView :
    (alignedView.evaluate 1050000000).position.distance
        (sampleTimeline.at ⌊((1049850000 : Nat) : ℝ)⌋₊).1 ≤
      1 / 1000 * (alignedView.evaluate 1050000000).format.fps +
        |(alignedView.evaluate 1050000000).rate.asF64| *
          (alignedView.evaluate 1050000000).format.fps / 1000000000 + 2 / q32 := by
  have hshows : alignedView.Shows sampleTimeline 1050000000 ⌊((1049850000 : Nat) : ℝ)⌋₊ := by
    rw [Nat.floor_natCast]
    exact View.shows_of_no_change (by decide +kernel)
  have hleader : alignedView.mapping.leaderTime 1050000000 = 1050000000 := by decide +kernel
  refine (alignment_error_bounds_distance (u := 150000) (by decide +kernel) hshows
    (by decide +kernel) ?_).2 (by decide +kernel)
  rw [hleader]
  norm_num [abs_le]

/-- What a leader's own readers are given, one nanosecond into a run at 30 frames
per second. -/
def localClockView : View :=
  { View.default with
    localClock := true
    timeline := { Timeline.default with anchor := ⟨0, Position.zero, Rate.normal⟩ }
    mapping :=
      { ClockMapping.default with
        referenceNs := 1
        uncertaintyNs := 0
        lastSampleNs := 1
        converged := true }
    connection := .connected
    sync := .synchronized }

/-- A local clock is exact and its readings say so, while the uncertainty of the
mapping behind them grows with age: two seconds later a leader time 2 ms off is
within the latter and 0.06 frames away. -/
theorem alignment_error_not_within_mapping_uncertainty :
    ¬ ∀ (v : View) (leader : Timeline) (localNs : Nat) (truth : ℝ) (u : ℚ),
      (v.evaluate localNs).status.synchronization ≠ .uninitialized →
      v.Shows leader localNs ⌊truth⌋₊ →
      v.mapping.uncertaintyAt localNs = (u : WithTop ℚ) →
      |(v.mapping.leaderTime localNs : ℝ) - truth| ≤ (u : ℝ) →
      ∃ err : ℚ, (v.evaluate localNs).status.alignmentErrorNs = (err : WithTop ℚ) ∧
        (v.evaluate localNs).position.distance (leader.at ⌊truth⌋₊).1 ≤
          err / 1000000000 * (v.evaluate localNs).format.fps +
            |(v.evaluate localNs).rate.asF64| * (v.evaluate localNs).format.fps / 1000000000 +
            2 / q32 := by
  intro hclaim
  have hshows : localClockView.Shows localClockView.timeline 2000000001
      ⌊((2002000001 : Nat) : ℝ)⌋₊ := by
    rw [Nat.floor_natCast]
    exact View.shows_of_no_change (by decide +kernel)
  have hleader : localClockView.mapping.leaderTime 2000000001 = 2000000001 := by decide +kernel
  obtain ⟨err, herr, hdistance⟩ := hclaim localClockView localClockView.timeline 2000000001
    ((2002000001 : Nat) : ℝ) 2000000 (by decide +kernel) hshows (by decide +kernel)
    (by rw [hleader]; norm_num [abs_le])
  have hzero : (localClockView.evaluate 2000000001).status.alignmentErrorNs =
      ((0 : ℚ) : WithTop ℚ) := by
    decide +kernel
  rw [hzero, WithTop.coe_inj] at herr
  subst herr
  rw [Nat.floor_natCast] at hdistance
  revert hdistance
  decide +kernel

end Tidkod
