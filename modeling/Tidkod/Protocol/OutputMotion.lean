import Mathlib.Tactic
import Tidkod.Protocol.Alignment

/-!
How the output moves between two scheduled changes. One trajectory is in effect, so
the position is a monotone motion plus a correction that only shrinks. A correction
that does not oppose the playback leaves the sum monotone; any correction leaves it
with steps far below a frame.
-/

namespace Tidkod

open Rounding TimedQueue

theorem velocity_nonneg {format : FrameFormat} {rate : Rate} (h : 0 ≤ rate.numerator) :
    0 ≤ velocity format rate := by
  have hnum : (0 : ℚ) ≤ rate.numerator := by exact_mod_cast h
  have hrate : 0 ≤ rate.asF64 := div_nonneg hnum (Nat.cast_nonneg _)
  have hmotion : 0 ≤ format.fps * rate.asF64 := mul_nonneg format.fps_pos.le hrate
  exact mul_nonneg (div_nonneg hmotion (by norm_num)) q32_pos.le

theorem velocity_nonpos {format : FrameFormat} {rate : Rate} (h : rate.numerator ≤ 0) :
    velocity format rate ≤ 0 := by
  have hnum : (rate.numerator : ℚ) ≤ 0 := by exact_mod_cast h
  have hrate : rate.asF64 ≤ 0 := div_nonpos_of_nonpos_of_nonneg hnum (Nat.cast_nonneg _)
  have hmotion : format.fps * rate.asF64 ≤ 0 :=
    mul_nonpos_of_nonneg_of_nonpos format.fps_pos.le hrate
  exact mul_nonpos_of_nonpos_of_nonneg
    (div_nonpos_of_nonpos_of_nonneg hmotion (by norm_num)) q32_pos.le

/-- At most sixty frames a second at 64 times the speed. -/
theorem abs_velocity_le (format : FrameFormat) (rate : Rate) : |velocity format rate| ≤ 20000 := by
  have hformats : ∀ r ∈ frameRates, r.1 ≤ 60 * r.2 := by decide
  have hnum : (format.numerator : ℚ) ≤ 60 * format.denominator := by
    exact_mod_cast hformats _ format.supported.1
  have hden : (0 : ℚ) < format.denominator := by exact_mod_cast format.denominator_pos
  have hfps : format.fps ≤ 60 := by
    unfold FrameFormat.fps
    rw [div_le_iff₀ hden]
    exact hnum
  have hrate := rate.abs_asF64_le
  have hnonneg := format.fps_pos
  rw [abs_velocity]
  calc format.fps * |rate.asF64| / 1000000000 * q32
      ≤ 60 * 64 / 1000000000 * q32 := by
        have hq32 := q32_pos.le
        gcongr
    _ ≤ 20000 := by norm_num [q32]

theorem Anchor.elapsed_mono (a : Anchor) {s t : Nat} (h : s ≤ t) : a.elapsed s ≤ a.elapsed t :=
  clamp_mono _ _ (by omega)

theorem Anchor.fixed_at_mono (a : Anchor) (format : FrameFormat) (hforward : 0 ≤ a.rate.numerator)
    {s t : Nat} (h : s ≤ t) : (a.at s format).fixed ≤ (a.at t format).fixed := by
  have helapsed : ((a.elapsed s : Int) : ℚ) ≤ a.elapsed t := by
    exact_mod_cast a.elapsed_mono h
  have hvelocity : 0 ≤ velocity format a.rate := velocity_nonneg hforward
  have hmotion := trunc_mono (mul_le_mul_of_nonneg_right helapsed hvelocity)
  rw [a.fixed_at, a.fixed_at]
  exact clamp_mono _ _ (by omega)

theorem Anchor.fixed_at_anti (a : Anchor) (format : FrameFormat) (hreverse : a.rate.numerator ≤ 0)
    {s t : Nat} (h : s ≤ t) : (a.at t format).fixed ≤ (a.at s format).fixed := by
  have helapsed : ((a.elapsed s : Int) : ℚ) ≤ a.elapsed t := by
    exact_mod_cast a.elapsed_mono h
  have hvelocity : velocity format a.rate ≤ 0 := velocity_nonpos hreverse
  have hmotion := trunc_mono (mul_le_mul_of_nonpos_right helapsed hvelocity)
  rw [a.fixed_at, a.fixed_at]
  exact clamp_mono _ _ (by omega)

namespace View

/-- No scheduled change takes effect after `localNs` up to `t`. -/
def Quiet (v : View) (localNs t : Nat) : Prop :=
  ∀ s ∈ v.timeline.scheduled,
    v.mapping.leaderTime localNs < s.timeNs → v.mapping.leaderTime t < s.timeNs

/-- The clock has been initialized, as the readings say. -/
def Known (v : View) : Prop := v.initialized = true ∧ v.sync ≠ .uninitialized

instance (v : View) : Decidable v.Known := inferInstanceAs (Decidable (_ ∧ _))

theorem known_iff (v : View) (localNs : Nat) :
    v.Known ↔ (v.evaluate localNs).status.synchronization ≠ .uninitialized := by
  constructor
  · rintro ⟨hinitialized, hsync⟩
    change (if v.initialized then v.sync else SyncState.uninitialized) ≠ _
    rwa [if_pos hinitialized]
  · exact initialized_of_synchronization

variable {v : View} {localNs : Nat}

theorem Quiet.anti (hdrift : |v.mapping.drift| ≤ maxDrift) {t u : Nat}
    (h : v.Quiet localNs u) (htu : t ≤ u) : v.Quiet localNs t :=
  fun s hs hlater => (ClockMapping.leaderTime_mono hdrift htu).trans_lt (h s hs hlater)

/-- Between changes one entry stays in effect. -/
theorem Quiet.entry (hclock : v.Known) (hdrift : |v.mapping.drift| ≤ maxDrift) {t : Nat}
    (h : v.Quiet localNs t) (ht : localNs ≤ t) : v.entry t = v.entry localNs := by
  unfold View.entry
  rw [evaluationTime_of_ne hclock.2, evaluationTime_of_ne hclock.2]
  apply current_of_same_due
  intro s hs
  constructor
  · intro hdue
    by_contra hlater
    exact absurd hdue (not_le.mpr (h s hs (not_le.mp hlater)))
  · intro hdue
    exact hdue.trans (ClockMapping.leaderTime_mono hdrift ht)

/-- The speed at which a correction shrinks while an entry is in effect, in frames for
each nanosecond. -/
def slewRate (v : View) (entry : Scheduled) : ℚ :=
  min v.slewFramesPerSecond (v.timeline.format.fps * |entry.anchor.rate.asF64| * (1 / 10)) /
    1000000000

theorem slewRate_nonneg (hslew : 0 ≤ v.slewFramesPerSecond) (entry : Scheduled) :
    0 ≤ v.slewRate entry := by
  have hfps := v.timeline.format.fps_pos
  have hmin : 0 ≤ min v.slewFramesPerSecond
      (v.timeline.format.fps * |entry.anchor.rate.asF64| * (1 / 10)) :=
    le_min hslew (by positivity)
  unfold slewRate
  positivity

/-- A slew is at most a tenth of the playback. -/
theorem slewRate_le (v : View) (entry : Scheduled) :
    v.slewRate entry * q32 ≤ |velocity v.timeline.format entry.anchor.rate| / 10 := by
  have hmin := min_le_right v.slewFramesPerSecond
    (v.timeline.format.fps * |entry.anchor.rate.asF64| * (1 / 10))
  rw [abs_velocity]
  calc v.slewRate entry * q32
      ≤ v.timeline.format.fps * |entry.anchor.rate.asF64| * (1 / 10) / 1000000000 * q32 := by
        have hq32 := q32_pos.le
        unfold slewRate
        gcongr
    _ = v.timeline.format.fps * |entry.anchor.rate.asF64| / 1000000000 * q32 / 10 := by ring

theorem remaining_eq (v : View) (t : Nat) :
    v.remaining t =
      if (v.entry t).discontinuity = v.correctionDiscontinuity then
        max (|v.correctionFrames| - ((t - v.correctionAt : Nat) : ℚ) * v.slewRate (v.entry t)) 0 *
          signum v.correctionFrames
      else 0 := by
  have hscale (x slew : ℚ) : x / 1000000000 * slew = x * (slew / 1000000000) := by ring
  simp only [remaining, Timeline.at_eq_current, slewRate, View.entry, hscale]
  rfl

/-- While an entry is in effect the correction shrinks, and by at most its slew. -/
theorem remaining_step (hslew : 0 ≤ v.slewFramesPerSecond) {t u : Nat} (htu : t ≤ u)
    (hentry : v.entry u = v.entry t) :
    |v.remaining t - v.remaining u| ≤ (u - t : Nat) * v.slewRate (v.entry t) ∧
      0 ≤ (v.remaining t - v.remaining u) * v.correctionFrames := by
  have hrate := slewRate_nonneg hslew (v.entry t)
  have helapsed : ((t - v.correctionAt : Nat) : ℚ) ≤ (u - v.correctionAt : Nat) := by
    exact_mod_cast Nat.sub_le_sub_right htu _
  have hstep : ((u - v.correctionAt : Nat) : ℚ) ≤ (t - v.correctionAt : Nat) + (u - t : Nat) := by
    exact_mod_cast (by omega : u - v.correctionAt ≤ (t - v.correctionAt) + (u - t))
  rw [remaining_eq v t, remaining_eq v u, hentry]
  split_ifs with hdisc
  · generalize hearly : max (|v.correctionFrames| -
      ((t - v.correctionAt : Nat) : ℚ) * v.slewRate (v.entry t)) 0 = early
    generalize hlate : max (|v.correctionFrames| -
      ((u - v.correctionAt : Nat) : ℚ) * v.slewRate (v.entry t)) 0 = late
    have hshrinks : late ≤ early := by
      rw [← hearly, ← hlate]
      gcongr
    have hslow : early - late ≤ (u - t : Nat) * v.slewRate (v.entry t) := by
      have hproduct := mul_le_mul_of_nonneg_right hstep hrate
      have hnonneg : 0 ≤ ((u - t : Nat) : ℚ) * v.slewRate (v.entry t) := by positivity
      have hreach : early ≤ late + (u - t : Nat) * v.slewRate (v.entry t) := by
        rw [← hearly, ← hlate]
        apply max_le
        · have hmax := le_max_left (|v.correctionFrames| -
            ((u - v.correctionAt : Nat) : ℚ) * v.slewRate (v.entry t)) 0
          linarith
        · have hmax := le_max_right (|v.correctionFrames| -
            ((u - v.correctionAt : Nat) : ℚ) * v.slewRate (v.entry t)) 0
          linarith
      linarith
    have hsame : signum v.correctionFrames * v.correctionFrames = |v.correctionFrames| := by
      unfold signum
      split_ifs with hneg
      · rw [abs_of_neg hneg]
        ring
      · rw [abs_of_nonneg (not_lt.mp hneg), one_mul]
    rw [← sub_mul]
    constructor
    · rw [abs_mul, abs_signum, mul_one, abs_of_nonneg (sub_nonneg.mpr hshrinks)]
      exact hslow
    · rw [mul_assoc, hsame]
      exact mul_nonneg (sub_nonneg.mpr hshrinks) (abs_nonneg _)
  · rw [sub_self, abs_zero, zero_mul]
    exact ⟨by positivity, le_rfl⟩

/-- The position while an entry is in effect. -/
theorem Quiet.fixed (hclock : v.Known) (hdrift : |v.mapping.drift| ≤ maxDrift) {t : Nat}
    (h : v.Quiet localNs t) (ht : localNs ≤ t) :
    (v.evaluate t).position.fixed =
      clamp Position.fixedMin Position.fixedMax
        (((v.entry localNs).anchor.at (v.mapping.leaderTime t) v.timeline.format).fixed +
          asI128 (v.remaining t * q32)) := by
  rw [evaluate_entry hclock.1, h.entry hclock hdrift ht, evaluationTime_of_ne hclock.2,
    Position.fixed_fromFixed]

/-- The output was ahead when the correction began, so that the slew holds it back. -/
def Opposed (v : View) (localNs : Nat) : Prop :=
  0 < v.correctionFrames * (v.evaluate localNs).rate.numerator

instance (v : View) (localNs : Nat) : Decidable (v.Opposed localNs) :=
  inferInstanceAs (Decidable (_ < _))

theorem asI128_mono {x y : ℚ} (h : x ≤ y) : asI128 x ≤ asI128 y := clamp_mono _ _ (trunc_mono h)

/-- A correction of one sign moves toward zero. -/
theorem remaining_mono (hslew : 0 ≤ v.slewFramesPerSecond) {t u : Nat} (htu : t ≤ u)
    (hentry : v.entry u = v.entry t) :
    (v.correctionFrames ≤ 0 → v.remaining t ≤ v.remaining u) ∧
      (0 ≤ v.correctionFrames → v.remaining u ≤ v.remaining t) := by
  obtain ⟨-, hshrinks⟩ := remaining_step hslew htu hentry
  by_cases hzero : v.correctionFrames = 0
  · rw [remaining_of_zero hslew hzero, remaining_of_zero hslew hzero]
    exact ⟨fun _ => le_rfl, fun _ => le_rfl⟩
  · constructor
    · intro hneg
      have hlt : v.correctionFrames < 0 := lt_of_le_of_ne hneg hzero
      exact sub_nonpos.mp (nonpos_of_mul_nonneg_left hshrinks hlt)
    · intro hpos
      have hlt : 0 < v.correctionFrames := lt_of_le_of_ne hpos (Ne.symm hzero)
      exact sub_nonneg.mp (nonneg_of_mul_nonneg_left hshrinks hlt)

/-- Without a slew that holds it back, the output moves in the direction of playback. -/
theorem Quiet.fixed_mono (hclock : v.Known) (hdrift : |v.mapping.drift| ≤ maxDrift)
    (hslew : 0 ≤ v.slewFramesPerSecond) (hfree : ¬ v.Opposed localNs) {t u : Nat}
    (h : v.Quiet localNs u) (ht : localNs ≤ t) (htu : t ≤ u) :
    (0 < (v.evaluate localNs).rate.numerator →
        (v.evaluate t).position.fixed ≤ (v.evaluate u).position.fixed) ∧
      ((v.evaluate localNs).rate.numerator < 0 →
        (v.evaluate u).position.fixed ≤ (v.evaluate t).position.fixed) := by
  have hquiet := h.anti hdrift htu
  have hentry : v.entry u = v.entry t :=
    (h.entry hclock hdrift (ht.trans htu)).trans (hquiet.entry hclock hdrift ht).symm
  obtain ⟨hup, hdown⟩ := remaining_mono hslew htu hentry
  have htime := ClockMapping.leaderTime_mono hdrift htu
  unfold Opposed at hfree
  rw [hquiet.fixed hclock hdrift ht, h.fixed hclock hdrift (ht.trans htu)]
  rw [evaluate_rate hclock.1] at hfree ⊢
  constructor
  · intro hforward
    have hrate : (0 : ℚ) < (v.entry localNs).anchor.rate.numerator := by exact_mod_cast hforward
    have hbehind : v.correctionFrames ≤ 0 := by
      by_contra hahead
      exact hfree (mul_pos (not_le.mp hahead) hrate)
    have hmotion := (v.entry localNs).anchor.fixed_at_mono v.timeline.format hforward.le htime
    have hcorrection := asI128_mono (mul_le_mul_of_nonneg_right (hup hbehind) q32_pos.le)
    exact clamp_mono _ _ (by omega)
  · intro hreverse
    have hrate : ((v.entry localNs).anchor.rate.numerator : ℚ) < 0 := by exact_mod_cast hreverse
    have hbehind : 0 ≤ v.correctionFrames := by
      by_contra hahead
      exact hfree (mul_pos_of_neg_of_neg (not_le.mp hahead) hrate)
    have hmotion := (v.entry localNs).anchor.fixed_at_anti v.timeline.format hreverse.le htime
    have hcorrection := asI128_mono (mul_le_mul_of_nonneg_right (hdown hbehind) q32_pos.le)
    exact clamp_mono _ _ (by omega)

theorem abs_asI128_sub_le (x y : ℚ) : |((asI128 x : Int) : ℚ) - asI128 y| ≤ |x - y| + 1 := by
  have hclamp : |((asI128 x : Int) : ℚ) - asI128 y| ≤ |((trunc x : Int) : ℚ) - trunc y| := by
    exact_mod_cast abs_clamp_sub_le i128Min i128Max (trunc x) (trunc y)
  exact hclamp.trans (abs_trunc_sub_le x y)

/-- From one local nanosecond to the next, leader time moves by two at most. -/
theorem leaderTime_succ_le {m : ClockMapping} (hdrift : |m.drift| ≤ maxDrift) (t : Nat) :
    m.leaderTime (t + 1) ≤ m.leaderTime t + 2 := by
  obtain ⟨-, hfast⟩ := abs_le.mp hdrift
  have hline : ((t + 1 : Nat) : ℚ) + m.offsetAt (t + 1) ≤ t + m.offsetAt t + 1 + maxDrift := by
    simp only [ClockMapping.offsetAt]
    push_cast
    linarith
  have hnonneg : (0 : ℚ) ≤ 1 + maxDrift := by norm_num [maxDrift]
  have hlimit : (i64Max : ℚ) ≤ u64Max := by exact_mod_cast (by decide : i64Max ≤ u64Max)
  have hread (x : ℚ) : (asU64 (max 0 (min x i64Max)) : ℚ) ≤ max 0 (min x i64Max) ∧
      max 0 (min x i64Max) < asU64 (max 0 (min x i64Max)) + 1 :=
    toUnsigned_bounds (le_max_left _ _)
      (max_le (by positivity) ((min_le_right _ _).trans hlimit))
  have hclamped : max 0 (min (((t + 1 : Nat) : ℚ) + m.offsetAt (t + 1)) i64Max) ≤
      max 0 (min (t + m.offsetAt t) i64Max) + (1 + maxDrift) := by
    apply max_le
    · exact add_nonneg (le_max_left _ _) hnonneg
    · rcases le_total ((t : ℚ) + m.offsetAt t) i64Max with hbelow | habove
      · have hmax := le_max_right 0 (min ((t : ℚ) + m.offsetAt t) i64Max)
        rw [min_eq_left hbelow] at hmax
        have hmin := min_le_left (((t + 1 : Nat) : ℚ) + m.offsetAt (t + 1)) i64Max
        rw [min_eq_left hbelow]
        linarith
      · have hmax := le_max_right 0 (min ((t : ℚ) + m.offsetAt t) i64Max)
        rw [min_eq_right habove] at hmax
        have hmin := min_le_right (((t + 1 : Nat) : ℚ) + m.offsetAt (t + 1)) (i64Max : ℚ)
        rw [min_eq_right habove]
        linarith
  have hlater := (hread (((t + 1 : Nat) : ℚ) + m.offsetAt (t + 1))).1
  have hnow := (hread (t + m.offsetAt t)).2
  have hstep : ((m.leaderTime (t + 1) : Nat) : ℚ) < ((m.leaderTime t + 3 : Nat) : ℚ) := by
    have hsmall : 1 + maxDrift ≤ 2 := by norm_num [maxDrift]
    unfold ClockMapping.leaderTime
    rw [Nat.cast_add _ 3, Nat.cast_ofNat]
    linarith
  have hnat : m.leaderTime (t + 1) < m.leaderTime t + 3 := by exact_mod_cast hstep
  omega

/-- From one nanosecond to the next the output moves by far less than a frame. -/
theorem Quiet.abs_fixed_succ_sub_lt (hclock : v.Known) (hdrift : |v.mapping.drift| ≤ maxDrift)
    (hslew : 0 ≤ v.slewFramesPerSecond) {t : Nat} (h : v.Quiet localNs (t + 1))
    (ht : localNs ≤ t) :
    |(v.evaluate (t + 1)).position.fixed - (v.evaluate t).position.fixed| < q32 := by
  have hquiet := h.anti hdrift (Nat.le_succ t)
  have hentry : v.entry (t + 1) = v.entry t :=
    (h.entry hclock hdrift (ht.trans (Nat.le_succ t))).trans (hquiet.entry hclock hdrift ht).symm
  have hvelocity := abs_velocity_le v.timeline.format (v.entry localNs).anchor.rate
  -- The trajectory moves by two nanoseconds of playback at most.
  have hmotion := (v.entry localNs).anchor.abs_fixed_at_sub_le v.timeline.format
    (v.mapping.leaderTime (t + 1)) (v.mapping.leaderTime t)
  have htime : |((v.mapping.leaderTime (t + 1) : Nat) : ℚ) - v.mapping.leaderTime t| ≤ 2 := by
    have hmono : ((v.mapping.leaderTime t : Nat) : ℚ) ≤ v.mapping.leaderTime (t + 1) := by
      exact_mod_cast ClockMapping.leaderTime_mono hdrift (Nat.le_succ t)
    have hsucc : ((v.mapping.leaderTime (t + 1) : Nat) : ℚ) ≤ v.mapping.leaderTime t + 2 := by
      exact_mod_cast leaderTime_succ_le hdrift t
    rw [abs_of_nonneg (sub_nonneg.mpr hmono)]
    linarith
  have htrajectory := hmotion.trans (add_le_add_left (mul_le_mul htime hvelocity (abs_nonneg _)
    (by norm_num)) 1)
  -- The correction moves by a tenth of one nanosecond of playback at most.
  obtain ⟨hcorrection, -⟩ := remaining_step hslew (Nat.le_succ t) hentry
  rw [Nat.succ_sub (le_refl t), Nat.sub_self, hquiet.entry hclock hdrift ht] at hcorrection
  have hslewed : |v.remaining (t + 1) * q32 - v.remaining t * q32| ≤ 2000 := by
    have hrate := v.slewRate_le (v.entry localNs)
    have hscaled := mul_le_mul_of_nonneg_right hcorrection q32_pos.le
    rw [← sub_mul, abs_mul, abs_of_pos q32_pos, abs_sub_comm]
    norm_num at hscaled
    linarith
  have hcast := (abs_asI128_sub_le (v.remaining (t + 1) * q32) (v.remaining t * q32)).trans
    (add_le_add_left hslewed 1)
  have hclamp := abs_clamp_sub_le Position.fixedMin Position.fixedMax
    (((v.entry localNs).anchor.at (v.mapping.leaderTime (t + 1)) v.timeline.format).fixed +
      asI128 (v.remaining (t + 1) * q32))
    (((v.entry localNs).anchor.at (v.mapping.leaderTime t) v.timeline.format).fixed +
      asI128 (v.remaining t * q32))
  rw [← h.fixed hclock hdrift (ht.trans (Nat.le_succ t)), ← hquiet.fixed hclock hdrift ht] at hclamp
  apply hclamp.trans_lt
  have htrajectory' : |((v.entry localNs).anchor.at (v.mapping.leaderTime (t + 1))
      v.timeline.format).fixed - ((v.entry localNs).anchor.at (v.mapping.leaderTime t)
        v.timeline.format).fixed| ≤ 40001 := by
    have hbound := htrajectory.trans (by norm_num : (2 : ℚ) * 20000 + 1 ≤ 40001)
    exact_mod_cast hbound
  have hcast' : |asI128 (v.remaining (t + 1) * q32) - asI128 (v.remaining t * q32)| ≤ 2001 := by
    have hbound := hcast.trans (by norm_num : (2000 : ℚ) + 1 ≤ 2001)
    exact_mod_cast hbound
  simp only [Int.abs_eq_natAbs, q32] at htrajectory' hcast' ⊢
  omega

end View

end Tidkod
