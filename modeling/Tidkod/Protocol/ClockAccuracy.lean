import Mathlib.Tactic
import Tidkod.Protocol.Alignment
import Tidkod.Protocol.ClockUncertainty
import Tidkod.Protocol.FollowerSessions

/-!
What a follower knows of one clock, and what a reading is worth then. The mapping is within
its uncertainty of the clock as long as every exchange was made with it and was short enough;
the position shown is then within the published alignment error of the leader's.
-/

namespace Tidkod

open BoundedRate Rounding

/-- From its last sample on the mapping is within its uncertainty of the clock, up to the
nanosecond to which leader times are rounded. -/
def ClockMapping.Accurate (leader : ℝ → ℝ) (m : ClockMapping) : Prop :=
  m.lastSampleNs ≠ 0 → ∀ x : Nat, m.lastSampleNs ≤ x → leader x ≤ i64Max →
    ∃ u : ℚ, m.uncertaintyAt x = (u : WithTop ℚ) ∧
      |(m.leaderTime x : ℝ) - leader x| ≤ (u : ℝ) + 1

/-- What a follower has learnt is about one clock. -/
structure FollowerCore.Knows (leader : ℝ → ℝ) (c : FollowerCore) : Prop where
  tracks : c.estimator.Tracks leader
  accurate : c.view.mapping.Accurate leader

namespace FollowerCore

variable {leader : ℝ → ℝ} {c : FollowerCore}

/-- Nothing but the estimator and the mapping matters. -/
theorem Knows.congr (h : c.Knows leader) {d : FollowerCore} (hestimator : d.estimator = c.estimator)
    (hmapping : d.view.mapping = c.view.mapping) : d.Knows leader :=
  ⟨hestimator ▸ h.tracks, hmapping ▸ h.accurate⟩

/-- A follower without a clock knows nothing wrong. -/
theorem knows_of_default {d : FollowerCore} (hestimator : d.estimator = ClockEstimator.default)
    (hmapping : d.view.mapping = ClockMapping.default) (leader : ℝ → ℝ) : d.Knows leader where
  tracks := hestimator ▸ tracks_default leader
  accurate := fun hclock => absurd (congrArg ClockMapping.lastSampleNs hmapping) hclock

/-- A snapshot keeps what is known of the session, or starts over with another one. -/
theorem Knows.state (clock : Bytes16 → ℝ → ℝ) (h : c.Knows (clock c.view.timeline.session))
    (t : Timeline) (now : Nat) :
    (c.state t now).1.Knows (clock (c.state t now).1.view.timeline.session) := by
  have houtcome := state_outcome c t now
  generalize c.state t now = result at houtcome ⊢
  cases houtcome with
  | foreign => exact h
  | adopted => exact knows_of_default rfl rfl _
  | refused => exact h.congr rfl rfl
  | jumped _ hsession =>
      have hkept : ((c.pin t.session).follow t now).view.timeline.session =
          c.view.timeline.session := hsession.symm
      change Knows (clock ((c.pin t.session).follow t now).view.timeline.session) _
      rw [hkept]
      exact h.congr rfl rfl
  | refined _ hsession =>
      have hkept : ((c.pin t.session).follow t now).view.timeline.session =
          c.view.timeline.session := hsession.symm
      rw [correct_timeline, hkept]
      exact h.congr (by rw [correct_estimator]; rfl) (by rw [correct_mapping]; rfl)

theorem Knows.tick (h : c.Knows leader) (now staleAfter : Nat) :
    (c.tick now staleAfter).1.Knows leader := by
  have houtcome := tick_outcome c now staleAfter
  generalize c.tick now staleAfter = result at houtcome ⊢
  cases houtcome with
  | unknown => exact h
  | reported => exact h.congr rfl rfl
  | silent => exact h.congr rfl rfl

/-- An accepted exchange with the clock makes the mapping accurate. -/
theorem Knows.accepted (hleader : LeaderClock leader) (h : c.Knows leader) {e : Exchange}
    (hhonest : e.Honest leader) (hshort : e.duration ≤ coveredExchangeNs)
    (haccepted : (c.estimator.observeInner e).2 = true) (publicationNs : Option Nat)
    (processedNs : Nat) :
    (c.observed e publicationNs processedNs).estimator.Tracks leader ∧
      (c.observed e publicationNs processedNs).estimator.mapping.Accurate leader := by
  have htracks : (c.observed e publicationNs processedNs).estimator.Tracks leader :=
    h.tracks.feed hleader (a := ⟨e, publicationNs, processedNs⟩) hhonest (fun _ => hshort)
  refine ⟨htracks, fun _ x hx hmax => ?_⟩
  obtain ⟨hadmissible, hmem, hlast, count, hmapping⟩ :=
    ClockEstimator.observeInner_fit_of_accepted haccepted
  have hreceipt : (c.observed e publicationNs processedNs).estimator.mapping.lastSampleNs = e.t4 :=
    congrArg ClockMapping.lastSampleNs hmapping
  have hreceived : e.t4 ≤ x := hreceipt ▸ hx
  have hnonneg : 0 ≤ leader x := hhonest.leader_nonneg hleader (by exact_mod_cast hreceived)
  exact htracks.leaderTime_error hleader hadmissible hmem hlast hmapping hreceived hnonneg hmax

theorem Knows.measurementTimed (hleader : LeaderClock leader) (h : c.Knows leader)
    {e : Exchange} (hhonest : c.expectedSession ≠ none → e.Honest leader)
    (hshort : e.duration ≤ coveredExchangeNs) (publicationNs : Option Nat) (processedNs : Nat) :
    (c.measurementTimed e publicationNs processedNs).1.Knows leader := by
  have houtcome := measurementTimed_outcome c e publicationNs processedNs
  generalize c.measurementTimed e publicationNs processedNs = result at houtcome ⊢
  cases houtcome with
  | unpinned => exact h
  | rejected hpinned hrejected =>
      refine ⟨?_, h.accurate⟩
      exact h.tracks.feed hleader (a := ⟨e, publicationNs, processedNs⟩) (hhonest hpinned)
        (fun _ => hshort)
  | acquired hpinned haccepted =>
      obtain ⟨htracks, haccurate⟩ := h.accepted hleader (hhonest hpinned) hshort haccepted
        publicationNs processedNs
      exact ⟨htracks, haccurate⟩
  | jumped hpinned haccepted =>
      obtain ⟨htracks, haccurate⟩ := h.accepted hleader (hhonest hpinned) hshort haccepted
        publicationNs processedNs
      exact ⟨htracks, haccurate⟩
  | refined hpinned haccepted =>
      obtain ⟨htracks, haccurate⟩ := h.accepted hleader (hhonest hpinned) hshort haccepted
        publicationNs processedNs
      refine ⟨?_, ?_⟩
      · rw [correct_estimator]
        exact htracks
      · rw [correct_mapping]
        exact haccurate

/-- A snapshot pins its own session or leaves the pin alone. -/
theorem state_expectedSession (c : FollowerCore) (t : Timeline) (now : Nat) :
    (c.state t now).1.expectedSession = some t.session ∨
      (c.state t now).1.expectedSession = c.expectedSession := by
  have houtcome := state_outcome c t now
  generalize c.state t now = result at houtcome ⊢
  cases houtcome with
  | foreign => exact Or.inr rfl
  | adopted => exact Or.inl rfl
  | refused => exact Or.inl rfl
  | jumped => exact Or.inl rfl
  | refined =>
      left
      rw [correct_expectedSession]
      rfl

theorem correct_localClock (c : FollowerCore) (before : Position) (now : Nat)
    (measurement : Bool) :
    (c.correct before now measurement).1.view.localClock = c.view.localClock := by
  have houtcome := correct_outcome c before now measurement
  generalize c.correct before now measurement = result at houtcome ⊢
  cases houtcome <;> rfl

/-- A follower never becomes the reader of a local clock. -/
theorem step_localClock (c : FollowerCore) (op : Op) :
    (c.step op).1.view.localClock = c.view.localClock := by
  cases op with
  | connected => rfl
  | disconnected => rfl
  | state t now =>
      have houtcome := state_outcome c t.timeline now
      simp only [step]
      generalize c.state t.timeline now = result at houtcome ⊢
      cases houtcome with
      | foreign => rfl
      | adopted => rfl
      | refused => rfl
      | jumped => rfl
      | refined => exact correct_localClock _ _ _ _
  | measurementTimed e publicationNs processedNs =>
      have houtcome := measurementTimed_outcome c e publicationNs processedNs
      simp only [step]
      generalize c.measurementTimed e publicationNs processedNs = result at houtcome ⊢
      cases houtcome with
      | unpinned => rfl
      | rejected => rfl
      | acquired => rfl
      | jumped => rfl
      | refined => exact correct_localClock _ _ _ _
  | tick now staleAfter =>
      have houtcome := tick_outcome c now staleAfter
      simp only [step]
      generalize c.tick now staleAfter = result at houtcome ⊢
      cases houtcome <;> rfl

end FollowerCore

/-- With a leader time that is off by the published uncertainty and `slack` nanoseconds,
a reading is within the published alignment error of the leader's position, up to the
playback of the slack and of the leader's own truncation, and two Q32 units. -/
theorem View.distance_of_error {v : View} {leader : Timeline} {localNs : Nat} {truth : ℝ}
    {u slack : ℚ} (hremote : v.localClock = false)
    (hclock : (v.evaluate localNs).status.synchronization ≠ .uninitialized)
    (hshows : v.Shows leader localNs ⌊truth⌋₊)
    (hu : v.mapping.uncertaintyAt localNs = (u : WithTop ℚ))
    (herror : |(v.mapping.leaderTime localNs : ℝ) - truth| ≤ ((u + slack : ℚ) : ℝ)) :
    ∃ err : ℚ, (v.evaluate localNs).status.alignmentErrorNs = (err : WithTop ℚ) ∧
      (v.evaluate localNs).position.distance (leader.at ⌊truth⌋₊).1 ≤
        err / 1000000000 * leader.format.fps +
          (slack + 1) * |(leader.at ⌊truth⌋₊).2.1.asF64| * leader.format.fps / 1000000000 +
          2 / q32 := by
  obtain ⟨hinitialized, hsync⟩ := View.initialized_of_synchronization hclock
  have hpublished : (v.evaluate localNs).status.uncertaintyNs = (u : WithTop ℚ) := by
    change (if v.localClock then 0 else v.mapping.uncertaintyAt localNs) = _
    rw [hremote]
    exact hu
  have halignment := v.evaluate_alignmentErrorNs hinitialized hpublished
  rw [v.evaluate_format hinitialized] at halignment
  have hfps := v.timeline.format.fps_pos
  have hreading := abs_sub_reading_le herror
  have hleader : leader.at ⌊truth⌋₊ =
      ((v.entry localNs).anchor.at ⌊truth⌋₊ v.timeline.format, (v.entry localNs).anchor.rate,
        (leader.current ⌊truth⌋₊).discontinuity) := by
    rw [Timeline.at_eq_current, View.entry, View.evaluationTime_of_ne hsync, hshows.anchor,
      hshows.format]
  have hrate : (v.evaluate localNs).rate = (leader.at ⌊truth⌋₊).2.1 := by
    rw [v.evaluate_rate hinitialized, hleader]
  have hposition := View.abs_position_sub_le hinitialized localNs ⌊truth⌋₊
  rw [View.evaluationTime_of_ne hsync, abs_velocity, ← v.evaluate_rate hinitialized] at hposition
  refine ⟨_, halignment, ?_⟩
  rw [← hshows.format, ← hrate, hleader]
  obtain ⟨rate, hrate⟩ : ∃ rate, |(v.evaluate localNs).rate.asF64| = rate := ⟨_, rfl⟩
  have hrateNonneg : 0 ≤ rate := hrate ▸ abs_nonneg _
  rw [hrate] at hposition ⊢
  have hq32 := q32_pos
  -- The playback over the error of the reading, in Q32 units.
  have hplayback : |(v.mapping.leaderTime localNs : ℚ) - ⌊truth⌋₊| *
      (v.timeline.format.fps * rate / 1000000000 * q32) ≤
        (u + slack + 1) * (v.timeline.format.fps * rate / 1000000000 * q32) := by
    have hvelocity : 0 ≤ v.timeline.format.fps * rate / 1000000000 * q32 := by positivity
    exact mul_le_mul_of_nonneg_right hreading hvelocity
  rw [Position.distance, div_le_iff₀ hq32]
  have hexpand : ((u * rate + |v.remaining localNs| / v.timeline.format.fps * 1000000000) /
      1000000000 * v.timeline.format.fps +
        (slack + 1) * rate * v.timeline.format.fps / 1000000000 + 2 / q32) * q32 =
      (u + slack + 1) * (v.timeline.format.fps * rate / 1000000000 * q32) +
        |v.remaining localNs| * q32 + 2 := by
    field_simp
    ring
  rw [hexpand]
  linarith

theorem Position.distance_triangle (p q r : Position) :
    p.distance q ≤ p.distance r + q.distance r := by
  have hsplit : |((p.fixed - q.fixed : Int) : ℚ)| ≤
      |((p.fixed - r.fixed : Int) : ℚ)| + |((q.fixed - r.fixed : Int) : ℚ)| := by
    have htriangle := abs_sub_le (p.fixed : ℚ) r.fixed q.fixed
    rw [abs_sub_comm (r.fixed : ℚ)] at htriangle
    push_cast
    exact htriangle
  rw [distance, distance, distance, ← add_div]
  exact div_le_div_of_nonneg_right hsplit q32_pos.le

end Tidkod
