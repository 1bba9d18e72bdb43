import Mathlib.Tactic
import Tidkod.Protocol.OutputMotion

/-!
A slew does not overpower the playback. Over any stretch of local time the trajectory
advances by at least nine tenths of the playback and the correction takes back at most
one tenth, so what is left of a reversal is rounding: of leader time to a nanosecond, of
the trajectory and of the correction to a Q32 unit. A trajectory that is held at the end
of the position range behind it does not advance, and there the correction does show.
-/

namespace Tidkod

open Rounding TimedQueue

/-- The trajectory over `n` nanoseconds of leader time against a correction slewed for
`local` nanoseconds at a tenth of the speed: at least the playback of one nanosecond and
two units are left, the leader time being that of a clock within ±500 ppm. -/
theorem playback_outweighs {speed elapsed : ℚ} (hspeed : 0 ≤ speed) (helapsed : 0 ≤ elapsed)
    {s t correction : Int} (hst : s ≤ t)
    (hclock : elapsed * (1 - maxDrift) - 1 < ((t - s : Int) : ℚ))
    (hslew : (correction : ℚ) ≤ elapsed * (speed / 10) + 1) :
    (correction : ℚ) - ((trunc (t * speed) : ℚ) - trunc (s * speed)) ≤ speed + 2 := by
  have hmotion : (s : ℚ) * speed ≤ t * speed := by
    have hcast : (s : ℚ) ≤ t := by exact_mod_cast hst
    gcongr
  obtain ⟨hacross, hside⟩ := lt_trunc_sub hmotion
  rw [← sub_mul] at hacross hside
  have hdrift : maxDrift = 1 / 2000 := rfl
  rw [hdrift] at hclock
  push_cast at hclock
  by_cases hcrosses : s < 0 ∧ 0 < t
  · -- Across the anchor's instant two units may be lost, but two nanoseconds are won.
    have htwo : (2 : ℚ) ≤ t - s := by exact_mod_cast (by omega : 2 ≤ t - s)
    have hoverall : elapsed / 10 ≤ (t : ℚ) - s := by
      rcases le_total elapsed 20 with hshort | hlong
      · linarith
      · linarith
    have hgain := mul_le_mul_of_nonneg_right hoverall hspeed
    have hlost : ((correction - (trunc (t * speed) - trunc (s * speed)) : Int) : ℚ) < 3 := by
      push_cast
      linarith
    have hwhole : correction - (trunc (t * speed) - trunc (s * speed)) ≤ 2 := by
      have hint : correction - (trunc (t * speed) - trunc (s * speed)) < 3 := by
        exact_mod_cast hlost
      omega
    have hcast : ((correction - (trunc (t * speed) - trunc (s * speed)) : Int) : ℚ) ≤ 2 := by
      exact_mod_cast hwhole
    push_cast at hcast
    linarith
  · have hone : 0 ≤ (s : ℚ) * speed ∨ (t : ℚ) * speed ≤ 0 := by
      rcases le_or_gt 0 s with hpos | hneg
      · have hcast : (0 : ℚ) ≤ s := by exact_mod_cast hpos
        exact Or.inl (mul_nonneg hcast hspeed)
      · have hcast : (t : ℚ) ≤ 0 := by
          exact_mod_cast not_lt.mp (fun hlate => hcrosses ⟨hneg, hlate⟩)
        exact Or.inr (mul_nonpos_of_nonpos_of_nonneg hcast hspeed)
    have hstep := hside hone
    have hgain := mul_le_mul_of_nonneg_right hclock.le hspeed
    have hextra : 0 ≤ elapsed * speed := mul_nonneg helapsed hspeed
    linarith

/-- A sum that falls by at most `n` does so after its parts are held in range, unless the
first part is held at the lower end. -/
theorem clamp_add_le {lo hi s t x y n : Int} (hrange : lo ≤ hi) (hlo : lo ≤ s) (hst : s ≤ t)
    (hy : 0 ≤ y) (hn : 0 ≤ n) (hsum : s + x ≤ t + y + n) :
    clamp lo hi (clamp lo hi s + x) ≤ clamp lo hi (clamp lo hi t + y) + n := by
  simp only [clamp]
  omega

theorem le_clamp_add {lo hi s t x y n : Int} (hrange : lo ≤ hi) (hhi : s ≤ hi) (hts : t ≤ s)
    (hy : y ≤ 0) (hn : 0 ≤ n) (hsum : t + y ≤ s + x + n) :
    clamp lo hi (clamp lo hi t + y) ≤ clamp lo hi (clamp lo hi s + x) + n := by
  simp only [clamp]
  omega

namespace View

/-- The mapped leader time is representable as it is. -/
def Unclamped (v : View) (localNs : Nat) : Prop :=
  0 ≤ localNs + v.mapping.offsetAt localNs ∧ localNs + v.mapping.offsetAt localNs ≤ i64Max

instance (v : View) (localNs : Nat) : Decidable (v.Unclamped localNs) :=
  inferInstanceAs (Decidable (_ ∧ _))

/-- The trajectory in effect before it is held in the range of positions. -/
def exactTrajectory (v : View) (entry : Scheduled) (localNs : Nat) : Int :=
  entry.anchor.position.fixed +
    trunc (entry.anchor.elapsed (v.mapping.leaderTime localNs) *
      velocity v.timeline.format entry.anchor.rate)

/-- The trajectory does not advance yet: its anchor is too far ahead for the elapsed time
to be represented, or the position is held at the end of its range behind it. -/
def HeldBack (v : View) (localNs : Nat) : Prop :=
  (v.mapping.leaderTime localNs : Int) - (v.entry localNs).anchor.timeNs < i64Min ∨
    (0 < (v.entry localNs).anchor.rate.numerator ∧
      v.exactTrajectory (v.entry localNs) localNs < Position.fixedMin) ∨
    ((v.entry localNs).anchor.rate.numerator < 0 ∧
      Position.fixedMax < v.exactTrajectory (v.entry localNs) localNs)

instance (v : View) (localNs : Nat) : Decidable (v.HeldBack localNs) :=
  inferInstanceAs (Decidable (_ ∨ _))

variable {v : View} {a b : Nat}

theorem leaderTime_bounds (h : v.Unclamped a) :
    (v.mapping.leaderTime a : ℚ) ≤ a + v.mapping.offsetAt a ∧
      (a : ℚ) + v.mapping.offsetAt a < v.mapping.leaderTime a + 1 := by
  have hlimit : (i64Max : ℚ) ≤ u64Max := by exact_mod_cast (by decide : i64Max ≤ u64Max)
  have hread := toUnsigned_bounds h.1 (h.2.trans hlimit)
  unfold ClockMapping.leaderTime
  rw [min_eq_left h.2, max_eq_right h.1]
  exact hread

theorem leaderTime_le_i64Max (h : v.Unclamped a) : v.mapping.leaderTime a ≤ i64Max := by
  exact_mod_cast (leaderTime_bounds h).1.trans h.2

/-- Leader time advances with local time but for the drift and less than a nanosecond. -/
theorem leaderTime_advance (hdrift : |v.mapping.drift| ≤ maxDrift) (ha : v.Unclamped a)
    (hb : v.Unclamped b) (hab : a ≤ b) :
    ((b : ℚ) - a) * (1 - maxDrift) - 1 <
      (v.mapping.leaderTime b : ℚ) - v.mapping.leaderTime a := by
  have hle : (a : ℚ) ≤ b := by exact_mod_cast hab
  have hslow := (abs_le.mp hdrift).1
  have hline : (b : ℚ) + v.mapping.offsetAt b - (a + v.mapping.offsetAt a) =
      (b - a) * (1 + v.mapping.drift) := by
    simp only [ClockMapping.offsetAt]
    ring
  have hspeed : ((b : ℚ) - a) * (1 - maxDrift) ≤ (b - a) * (1 + v.mapping.drift) :=
    mul_le_mul_of_nonneg_left (by linarith) (sub_nonneg.mpr hle)
  have hbefore := (leaderTime_bounds ha).1
  have hafter := (leaderTime_bounds hb).2
  linarith

/-- Elapsed time is exact but for an anchor too far ahead. -/
theorem elapsed_eq (hb : v.Unclamped b) (hab : v.mapping.leaderTime a ≤ v.mapping.leaderTime b)
    {anchor : Anchor} (h : i64Min ≤ (v.mapping.leaderTime a : Int) - anchor.timeNs) :
    anchor.elapsed (v.mapping.leaderTime b) = (v.mapping.leaderTime b : Int) - anchor.timeNs := by
  have hlimit := leaderTime_le_i64Max hb
  apply clamp_of_mem
  · omega
  · omega

/-- The sign of what is left of a correction. -/
theorem remaining_sign (v : View) (t : Nat) :
    (v.correctionFrames < 0 → v.remaining t ≤ 0) ∧
      (0 < v.correctionFrames → 0 ≤ v.remaining t) := by
  rw [remaining_eq]
  unfold signum
  split_ifs with hdisc hneg
  · refine ⟨fun _ => ?_, fun hpos => absurd hpos hneg.asymm⟩
    exact mul_nonpos_of_nonneg_of_nonpos (le_max_right _ _) (by norm_num)
  · exact ⟨fun hneg' => absurd hneg' hneg, fun _ => mul_nonneg (le_max_right _ _) (by norm_num)⟩
  · exact ⟨fun _ => le_rfl, fun _ => le_rfl⟩

/-- What is left of a correction shrinks and keeps its sign. -/
theorem remaining_shrinks (hslew : 0 ≤ v.slewFramesPerSecond) (hab : a ≤ b)
    (hentry : v.entry b = v.entry a) :
    |v.remaining b| ≤ |v.remaining a| ∧ 0 ≤ v.remaining a * v.remaining b := by
  obtain ⟨hup, hdown⟩ := remaining_mono hslew hab hentry
  obtain ⟨hnegA, hposA⟩ := v.remaining_sign a
  obtain ⟨hnegB, hposB⟩ := v.remaining_sign b
  rcases lt_trichotomy v.correctionFrames 0 with hneg | hzero | hpos
  · rw [abs_of_nonpos (hnegA hneg), abs_of_nonpos (hnegB hneg)]
    exact ⟨neg_le_neg (hup hneg.le), mul_nonneg_of_nonpos_of_nonpos (hnegA hneg) (hnegB hneg)⟩
  · rw [remaining_of_zero hslew hzero, remaining_of_zero hslew hzero]
    simp
  · rw [abs_of_nonneg (hposA hpos), abs_of_nonneg (hposB hpos)]
    exact ⟨hdown hpos.le, mul_nonneg (hposA hpos) (hposB hpos)⟩

/-- Units by which a trajectory advances in the direction of playback. -/
def advance (v : View) (entry : Scheduled) (a b : Nat) : Int :=
  trunc (entry.anchor.elapsed (v.mapping.leaderTime b) *
      |velocity v.timeline.format entry.anchor.rate|) -
    trunc (entry.anchor.elapsed (v.mapping.leaderTime a) *
      |velocity v.timeline.format entry.anchor.rate|)

/-- The rounded correction takes back no more than the rounded playback, one nanosecond
of it and two units. -/
theorem abs_slew_le (hdrift : |v.mapping.drift| ≤ maxDrift) (hslew : 0 ≤ v.slewFramesPerSecond)
    (hab : a ≤ b) (hentry : v.entry b = v.entry a) (ha : v.Unclamped a) (hb : v.Unclamped b)
    (hfar : i64Min ≤ (v.mapping.leaderTime a : Int) - (v.entry a).anchor.timeNs) :
    ((|asI128 (v.remaining a * q32) - asI128 (v.remaining b * q32)| : Int) : ℚ) -
        (v.advance (v.entry a) a b : ℚ) ≤
      |velocity v.timeline.format (v.entry a).anchor.rate| + 2 := by
  have htime := ClockMapping.leaderTime_mono hdrift hab
  have hle : (0 : ℚ) ≤ b - a := sub_nonneg.mpr (by exact_mod_cast hab)
  have helapsedA := elapsed_eq ha le_rfl hfar
  have helapsedB := elapsed_eq hb htime hfar
  rw [advance, Int.cast_sub]
  apply playback_outweighs (abs_nonneg _) hle
  · exact (v.entry a).anchor.elapsed_mono htime
  · have hadvance := leaderTime_advance hdrift ha hb hab
    rw [helapsedA, helapsedB]
    push_cast
    linarith
  · have hcast := abs_asI128_sub_le (v.remaining a * q32) (v.remaining b * q32)
    have hstep := (remaining_step hslew hab hentry).1
    have hrate := v.slewRate_le (v.entry a)
    rw [Nat.cast_sub hab] at hstep
    rw [← sub_mul, abs_mul, abs_of_pos q32_pos] at hcast
    have hscaled := mul_le_mul_of_nonneg_right hstep q32_pos.le
    have hslow := mul_le_mul_of_nonneg_left hrate hle
    push_cast
    linarith

theorem exactTrajectory_sub (v : View) (entry : Scheduled) (a b : Nat) :
    (0 ≤ entry.anchor.rate.numerator →
      v.exactTrajectory entry b - v.exactTrajectory entry a = v.advance entry a b) ∧
    (entry.anchor.rate.numerator ≤ 0 →
      v.exactTrajectory entry a - v.exactTrajectory entry b = v.advance entry a b) := by
  unfold exactTrajectory advance
  constructor
  · intro hforward
    rw [abs_of_nonneg (velocity_nonneg hforward), add_sub_add_left_eq_sub]
  · intro hreverse
    rw [abs_of_nonpos (velocity_nonpos hreverse), mul_neg, mul_neg, trunc_neg, trunc_neg]
    ring

theorem advance_nonneg (hdrift : |v.mapping.drift| ≤ maxDrift) (hab : a ≤ b)
    (entry : Scheduled) : 0 ≤ v.advance entry a b := by
  have helapsed : ((entry.anchor.elapsed (v.mapping.leaderTime a) : Int) : ℚ) ≤
      entry.anchor.elapsed (v.mapping.leaderTime b) := by
    exact_mod_cast entry.anchor.elapsed_mono (ClockMapping.leaderTime_mono hdrift hab)
  have hmotion := trunc_mono (mul_le_mul_of_nonneg_right helapsed
    (abs_nonneg (velocity v.timeline.format entry.anchor.rate)))
  unfold advance
  omega

theorem asI128_sign {x : ℚ} : (0 ≤ x → 0 ≤ asI128 x) ∧ (x ≤ 0 → asI128 x ≤ 0) := by
  have hzero : asI128 0 = 0 := by decide
  constructor
  · intro h
    exact hzero ▸ asI128_mono h
  · intro h
    exact hzero ▸ asI128_mono h

theorem Quiet.fixed_exact (hclock : v.Known) (hdrift : |v.mapping.drift| ≤ maxDrift) {t : Nat}
    (h : v.Quiet a t) (ht : a ≤ t) :
    (v.evaluate t).position.fixed =
      clamp Position.fixedMin Position.fixedMax
        (clamp Position.fixedMin Position.fixedMax (v.exactTrajectory (v.entry a) t) +
          asI128 (v.remaining t * q32)) := by
  rw [h.fixed hclock hdrift ht, Anchor.fixed_at]
  rfl

/-- A correction that opposes the playback has the sign of the rate. -/
theorem opposed_sign (hinitialized : v.initialized = true) (hopposed : v.Opposed a) (b : Nat) :
    (0 < (v.entry a).anchor.rate.numerator → 0 ≤ asI128 (v.remaining b * q32)) ∧
      ((v.entry a).anchor.rate.numerator < 0 → asI128 (v.remaining b * q32) ≤ 0) := by
  obtain ⟨hnegative, hpositive⟩ := v.remaining_sign b
  unfold Opposed at hopposed
  rw [evaluate_rate hinitialized] at hopposed
  constructor
  · intro hrate
    have hcast : (0 : ℚ) < (v.entry a).anchor.rate.numerator := by exact_mod_cast hrate
    have hcorrection := pos_of_mul_pos_left hopposed hcast.le
    exact asI128_sign.1 (mul_nonneg (hpositive hcorrection) q32_pos.le)
  · intro hrate
    have hcast : ((v.entry a).anchor.rate.numerator : ℚ) < 0 := by exact_mod_cast hrate
    have hcorrection := neg_of_mul_pos_left hopposed hcast.le
    exact asI128_sign.2 (mul_nonpos_of_nonpos_of_nonneg (hnegative hcorrection) q32_pos.le)

/-- Against a correction that opposes it the output moves back by the playback of one
nanosecond and two units at most, unless the trajectory is held back. -/
theorem Quiet.reversal_le (hclock : v.Known) (hdrift : |v.mapping.drift| ≤ maxDrift)
    (hslew : 0 ≤ v.slewFramesPerSecond) (hab : a ≤ b) (hquiet : v.Quiet a b)
    (ha : v.Unclamped a) (hb : v.Unclamped b) (hopposed : v.Opposed a) (hheld : ¬ v.HeldBack a) :
    (0 < (v.entry a).anchor.rate.numerator →
      ((v.evaluate a).position.fixed : ℚ) ≤ (v.evaluate b).position.fixed +
        (|velocity v.timeline.format (v.entry a).anchor.rate| + 2)) ∧
    ((v.entry a).anchor.rate.numerator < 0 →
      ((v.evaluate b).position.fixed : ℚ) ≤ (v.evaluate a).position.fixed +
        (|velocity v.timeline.format (v.entry a).anchor.rate| + 2)) := by
  simp only [HeldBack, not_or, not_lt, not_and] at hheld
  obtain ⟨hfar, hlow, hhigh⟩ := hheld
  have hentry := hquiet.entry hclock hdrift hab
  have hstays : v.Quiet a a := hquiet.anti hdrift hab
  have hrange : Position.fixedMin ≤ Position.fixedMax := by decide
  obtain ⟨hforward, hreverse⟩ := v.exactTrajectory_sub (v.entry a) a b
  have hleft := opposed_sign hclock.1 hopposed b
  have hslack := abs_slew_le hdrift hslew hab hentry ha hb hfar
  have hadvance := advance_nonneg hdrift hab (v.entry a)
  rw [hquiet.fixed_exact hclock hdrift hab, hstays.fixed_exact hclock hdrift le_rfl]
  generalize v.advance (v.entry a) a b = advance at *
  generalize v.exactTrajectory (v.entry a) a = s at *
  generalize v.exactTrajectory (v.entry a) b = t at *
  generalize asI128 (v.remaining a * q32) = x at *
  generalize asI128 (v.remaining b * q32) = y at *
  -- Units by which the correction outweighs the advance of the trajectory.
  obtain ⟨excess, hexcess⟩ : ∃ n, n = max 0 (|x - y| - advance) := ⟨_, rfl⟩
  have hbound : (excess : ℚ) ≤ |velocity v.timeline.format (v.entry a).anchor.rate| + 2 := by
    rw [hexcess]
    push_cast at hslack ⊢
    exact max_le (by positivity) hslack
  have hdistance := le_abs_self (x - y)
  have hdistance' := neg_abs_le (x - y)
  constructor
  · intro hrate
    have hmoved := hforward hrate.le
    have hstep : clamp Position.fixedMin Position.fixedMax
        (clamp Position.fixedMin Position.fixedMax s + x) ≤
          clamp Position.fixedMin Position.fixedMax
            (clamp Position.fixedMin Position.fixedMax t + y) + excess :=
      clamp_add_le hrange (hlow hrate) (by omega) (hleft.1 hrate) (by omega) (by omega)
    have hcast := (Int.cast_le (R := ℚ)).mpr hstep
    rw [Int.cast_add] at hcast
    linarith
  · intro hrate
    have hmoved := hreverse hrate.le
    have hstep : clamp Position.fixedMin Position.fixedMax
        (clamp Position.fixedMin Position.fixedMax t + y) ≤
          clamp Position.fixedMin Position.fixedMax
            (clamp Position.fixedMin Position.fixedMax s + x) + excess :=
      le_clamp_add hrange (hhigh hrate) (by omega) (hleft.2 hrate) (by omega) (by omega)
    have hcast := (Int.cast_le (R := ℚ)).mpr hstep
    rw [Int.cast_add] at hcast
    linarith

/-- Without playback there is neither motion nor a slew. -/
theorem Quiet.position_eq_of_paused (hclock : v.Known) (hdrift : |v.mapping.drift| ≤ maxDrift)
    (hslew : 0 ≤ v.slewFramesPerSecond) (hab : a ≤ b) (hquiet : v.Quiet a b)
    (hpaused : (v.entry a).anchor.rate.numerator = 0) :
    (v.evaluate b).position = (v.evaluate a).position := by
  have hentry := hquiet.entry hclock hdrift hab
  have hstays : v.Quiet a a := hquiet.anti hdrift hab
  have hvelocity : velocity v.timeline.format (v.entry a).anchor.rate = 0 :=
    le_antisymm (velocity_nonpos hpaused.le) (velocity_nonneg hpaused.ge)
  have hstill : v.exactTrajectory (v.entry a) b = v.exactTrajectory (v.entry a) a := by
    simp only [exactTrajectory, hvelocity, mul_zero, trunc_zero]
  have hrate : v.slewRate (v.entry a) = 0 := by
    have hcapped := v.slewRate_le (v.entry a)
    rw [hvelocity, abs_zero, zero_div] at hcapped
    have hnonneg := slewRate_nonneg hslew (v.entry a)
    exact le_antisymm (nonpos_of_mul_nonpos_left hcapped q32_pos) hnonneg
  have hkept : v.remaining b = v.remaining a := by
    have hstep := (remaining_step hslew hab hentry).1
    rw [hrate, mul_zero] at hstep
    exact (sub_eq_zero.mp (abs_nonpos_iff.mp hstep)).symm
  apply Position.ext_fixed
  rw [hquiet.fixed_exact hclock hdrift hab, hstays.fixed_exact hclock hdrift le_rfl, hstill, hkept]

/-- A slew never overpowers the playback. Between two local times without a change the
reported correction shrinks and keeps its sign, a paused output stands still, and a
running one does not move against its direction by more than a nanosecond of playback
and two units, unless the correction opposes it while its trajectory is held back. -/
theorem slew_never_overpowers (hclock : v.Known) (hdrift : |v.mapping.drift| ≤ maxDrift)
    (hslew : 0 ≤ v.slewFramesPerSecond) (hab : a ≤ b) (hquiet : v.Quiet a b)
    (ha : v.Unclamped a) (hb : v.Unclamped b) :
    |(v.evaluate b).status.correctionFrames| ≤ |(v.evaluate a).status.correctionFrames| ∧
    0 ≤ (v.evaluate a).status.correctionFrames * (v.evaluate b).status.correctionFrames ∧
    ((v.evaluate a).rate.numerator = 0 → (v.evaluate b).position = (v.evaluate a).position) ∧
    (¬ (v.Opposed a ∧ v.HeldBack a) →
      (0 < (v.evaluate a).rate.numerator →
        ((v.evaluate a).position.fixed : ℚ) ≤ (v.evaluate b).position.fixed +
          (|velocity (v.evaluate a).format (v.evaluate a).rate| + 2)) ∧
      ((v.evaluate a).rate.numerator < 0 →
        ((v.evaluate b).position.fixed : ℚ) ≤ (v.evaluate a).position.fixed +
          (|velocity (v.evaluate a).format (v.evaluate a).rate| + 2))) := by
  have hentry := hquiet.entry hclock hdrift hab
  have hcorrection (t : Nat) : (v.evaluate t).status.correctionFrames = v.remaining t :=
    if_pos hclock.1
  obtain ⟨hshrinks, hsign⟩ := remaining_shrinks hslew hab hentry
  rw [hcorrection, hcorrection, v.evaluate_format hclock.1, v.evaluate_rate hclock.1]
  refine ⟨hshrinks, hsign, ?_, ?_⟩
  · exact hquiet.position_eq_of_paused hclock hdrift hslew hab
  · intro hfree
    by_cases hopposed : v.Opposed a
    · exact hquiet.reversal_le hclock hdrift hslew hab ha hb hopposed
        (fun hheld => hfree ⟨hopposed, hheld⟩)
    · obtain ⟨hforward, hreverse⟩ :=
        hquiet.fixed_mono hclock hdrift hslew hopposed le_rfl hab
      rw [v.evaluate_rate hclock.1] at hforward hreverse
      have hslack : 0 ≤ |velocity v.timeline.format (v.entry a).anchor.rate| + 2 := by positivity
      constructor
      · intro hrate
        have hmono := (Int.cast_le (R := ℚ)).mpr (hforward hrate)
        linarith
      · intro hrate
        have hmono := (Int.cast_le (R := ℚ)).mpr (hreverse hrate)
        linarith

end View

/-- A follower of the sample timeline that is a fiftieth of a frame ahead. -/
def aheadView : View := { alignedView with correctionFrames := 1 / 50 }

/-- Over 50 ms its output does not move back by more than is rounded. -/
theorem slew_never_overpowers_of_aheadView :
    ((aheadView.evaluate 1000000000).position.fixed : ℚ) ≤
      (aheadView.evaluate 1050000000).position.fixed +
        (|velocity (aheadView.evaluate 1000000000).format
          (aheadView.evaluate 1000000000).rate| + 2) := by
  have hquiet : aheadView.Quiet 1000000000 1050000000 := by
    unfold View.Quiet
    decide +kernel
  have hslew := View.slew_never_overpowers (v := aheadView) (by decide +kernel)
    (by decide +kernel) (by decide +kernel) (by decide : 1000000000 ≤ 1050000000) hquiet
    (by decide +kernel) (by decide +kernel)
  exact (hslew.2.2.2 (by decide +kernel)).1 (by decide +kernel)

/-- A follower whose trajectory starts from the lowest position in nine seconds, one
frame ahead. -/
def heldBackView : View :=
  { alignedView with
    timeline :=
      { Timeline.default with
        anchor := ⟨10000000000, Position.fromFixed Position.fixedMin, Rate.normal⟩ }
    correctionFrames := 1 }

/-- Its trajectory is held at the lowest position, and the slew moves the output back. -/
theorem slew_can_overpower_held_trajectory :
    ¬ ∀ (v : View) (a b : Nat), v.Known → |v.mapping.drift| ≤ maxDrift →
      0 ≤ v.slewFramesPerSecond → a ≤ b → v.Quiet a b → v.Unclamped a → v.Unclamped b →
      0 < (v.evaluate a).rate.numerator →
      ((v.evaluate a).position.fixed : ℚ) ≤ (v.evaluate b).position.fixed +
        (|velocity (v.evaluate a).format (v.evaluate a).rate| + 2) := by
  intro hclaim
  have hquiet : heldBackView.Quiet 1000000000 2000000000 := by
    unfold View.Quiet
    decide +kernel
  have hreversal := hclaim heldBackView 1000000000 2000000000 (by decide +kernel)
    (by decide +kernel) (by decide +kernel) (by decide) hquiet (by decide +kernel)
    (by decide +kernel) (by decide +kernel)
  revert hreversal
  decide +kernel

end Tidkod
