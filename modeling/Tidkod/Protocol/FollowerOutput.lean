import Mathlib.Tactic
import Tidkod.Protocol.FollowerSteps

/-!
What a returned correction says about the published output. Readings just
before and just after an operation, at the local time at which it is processed,
differ exactly as the correction describes: a slew starts where the output
was, a resynchronization reports the jump it makes, and silence means that
nothing moved.
-/

namespace Tidkod

open Rounding

namespace View

theorem evaluate_position {v : View} (h : v.initialized = true) (now : Nat) :
    (v.evaluate now).position =
      Position.fromFixed ((v.timeline.at (v.evaluationTime now)).1.fixed +
        asI128 (v.remaining now * q32)) := by
  simp only [evaluate, h, if_true]

theorem evaluate_correctionFrames {v : View} (h : v.initialized = true) (now : Nat) :
    (v.evaluate now).status.correctionFrames = v.remaining now := by
  simp only [evaluate, h, if_true]

theorem initialized_iff (v : View) : v.initialized = true ↔ v.mapping.lastSampleNs ≠ 0 := by
  simp [initialized]

theorem abs_mul_signum (x : ℚ) : |x| * signum x = x := by
  unfold signum
  split_ifs with h
  · rw [abs_of_neg h]
    ring
  · rw [abs_of_nonneg (not_lt.mp h), mul_one]

theorem abs_signum (x : ℚ) : |signum x| = 1 := by
  unfold signum
  split_ifs <;> norm_num

/-- No correction, nothing remaining. -/
theorem remaining_of_zero {v : View} (hslew : 0 ≤ v.slewFramesPerSecond)
    (hzero : v.correctionFrames = 0) (now : Nat) : v.remaining now = 0 := by
  have hfps : 0 ≤ v.timeline.format.fps := by
    unfold FrameFormat.fps
    positivity
  simp only [remaining, hzero, abs_zero, zero_sub]
  split_ifs
  · have hrate : 0 ≤ min v.slewFramesPerSecond (v.timeline.format.fps *
        |(v.timeline.at (v.evaluationTime now)).2.1.asF64| * (1 / 10)) :=
      le_min hslew (by positivity)
    have helapsed : (0 : ℚ) ≤ ((now - v.correctionAt : Nat) : ℚ) / 1000000000 := by positivity
    rw [max_eq_right (neg_nonpos.mpr (mul_nonneg helapsed hrate)), zero_mul]
  · rfl

/-- At the instant a correction starts, all of it remains. -/
theorem remaining_of_start {v : View} {now : Nat} (hstart : v.correctionAt = now)
    (hdisc : v.correctionDiscontinuity = v.discontinuity now) :
    v.remaining now = v.correctionFrames := by
  have hdisc' : (v.timeline.at (v.evaluationTime now)).2.2 = v.correctionDiscontinuity := hdisc.symm
  simp only [remaining, hstart, hdisc', if_true, Nat.sub_self, Nat.cast_zero, zero_div, zero_mul,
    sub_zero]
  rw [max_eq_left (abs_nonneg _), abs_mul_signum]

end View

/-- The distance of two representable positions survives the cast back to Q32:
it is far inside the range of the cast. -/
theorem asI128_position_sub (p q : Position) :
    asI128 (((p.fixed - q.fixed : Int) : ℚ) / q32 * q32) = p.fixed - q.fixed := by
  have hq32 : (q32 : ℚ) ≠ 0 := by norm_num [q32]
  rw [div_mul_cancel₀ _ hq32]
  have hp := p.fixed_mem
  have hq := q.fixed_mem
  simp only [Position.fixedMin, Position.fixedMax, i64Min, i64Max, q32] at hp hq
  apply toSigned_intCast
  · simp only [i128Min]
    omega
  · simp only [i128Max]
    omega

namespace View

/-- Without a correction the output is the trajectory. -/
theorem evaluate_of_zero {v : View} (hclock : v.initialized = true)
    (hsync : v.sync ≠ .uninitialized) (hslew : 0 ≤ v.slewFramesPerSecond)
    (hzero : v.correctionFrames = 0) (now : Nat) :
    (v.evaluate now).position = (v.timeline.at (v.mapping.leaderTime now)).1 ∧
      (v.evaluate now).status.correctionFrames = 0 := by
  have hremaining := remaining_of_zero hslew hzero now
  have hcast : asI128 ((0 : ℚ) * q32) = 0 := by
    rw [zero_mul, asI128, toSigned, trunc_zero]
    decide
  rw [evaluate_position hclock, evaluate_correctionFrames hclock, hremaining, hcast, add_zero,
    Position.fromFixed_fixed, evaluationTime_of_ne hsync]
  exact ⟨rfl, rfl⟩

/-- A correction that starts now continues the output from where it was. -/
theorem evaluate_of_start {v : View} (hclock : v.initialized = true)
    (hsync : v.sync ≠ .uninitialized) {now : Nat} (hstart : v.correctionAt = now)
    (hdisc : v.correctionDiscontinuity = v.discontinuity now) (before : Position)
    (herror : v.correctionFrames =
      ((before.fixed - (v.timeline.at (v.mapping.leaderTime now)).1.fixed : Int) : ℚ) / q32) :
    (v.evaluate now).position = before ∧
      (v.evaluate now).status.correctionFrames = v.correctionFrames := by
  have hremaining := remaining_of_start hstart hdisc
  rw [evaluate_position hclock, evaluate_correctionFrames hclock, hremaining]
  refine ⟨?_, rfl⟩
  rw [herror, asI128_position_sub, evaluationTime_of_ne hsync, add_sub_cancel,
    Position.fromFixed_fixed]

end View

/-- What a correction claims about the readings around it. -/
def Correction.Describes (before after : Reading) : Option Correction → Prop
  | none => after.position = before.position ∧ after.rate = before.rate ∧
      after.discontinuity = before.discontinuity
  | some (.slew frames) => after.position = before.position ∧
      after.discontinuity = before.discontinuity ∧ after.status.correctionFrames = -frames
  | some (.hardResync frames) => after.status.correctionFrames = 0 ∧
      ((after.position.fixed - before.position.fixed : Int) : ℚ) = frames * q32
  | some (.discontinuity id) => after.discontinuity = id
  | some .newSession => True

/-- The events that count as a realignment. -/
def Correction.Resyncs : Option Correction → Bool
  | some .newSession => true
  | some (.hardResync _) => true
  | _ => false

namespace FollowerCore

/-- A policy that does not slew backwards is followed. With a negative speed a
correction that was cleared would grow again. -/
def SlewsForward (c : FollowerCore) : Prop :=
  0 ≤ c.policy.slewFramesPerSecond → 0 ≤ c.view.slewFramesPerSecond

theorem SlewsForward.correct {c : FollowerCore} (h : c.SlewsForward) (before : Position) (now : Nat)
    (measurement : Bool) : (c.correct before now measurement).1.SlewsForward := by
  have houtcome := correct_outcome c before now measurement
  generalize c.correct before now measurement = result at houtcome ⊢
  cases houtcome with
  | resynced => exact h
  | slewed =>
      intro hpolicy
      simp only [slewing]
      split_ifs
      · exact hpolicy
      · positivity

theorem SlewsForward.step {c : FollowerCore} (h : c.SlewsForward) (op : Op) :
    (c.step op).1.SlewsForward := by
  cases op with
  | connected => exact h
  | disconnected => exact h
  | state t now =>
      have houtcome := state_outcome c t.timeline now
      rw [FollowerCore.step]
      generalize c.state t.timeline now = result at houtcome ⊢
      cases houtcome with
      | refined =>
          have hfollow : ((c.pin t.timeline.session).follow t.timeline now).SlewsForward := h
          exact hfollow.correct _ _ _
      | _ => exact h
  | measurementTimed e publicationNs processedNs =>
      have houtcome := measurementTimed_outcome c e publicationNs processedNs
      rw [FollowerCore.step]
      generalize c.measurementTimed e publicationNs processedNs = result at houtcome ⊢
      cases houtcome with
      | refined =>
          have hmapped : (c.observed e publicationNs processedNs).mapped.SlewsForward := h
          exact hmapped.correct _ _ _
      | _ => exact h
  | tick now staleAfter =>
      have houtcome := tick_outcome c now staleAfter
      rw [FollowerCore.step]
      generalize c.tick now staleAfter = result at houtcome ⊢
      cases houtcome <;> exact h

theorem Reachable.slewsForward {c : FollowerCore} (h : c.Reachable) : c.SlewsForward := by
  obtain ⟨position, format, policy, hreach⟩ := h
  exact hreach.invariant (fun hpolicy => hpolicy) (fun _ op hinv => hinv.step op)

/-- A jump to the trajectory, reported as such. -/
theorem describes_hardResync {before : Reading} {v : View} (hclock : v.initialized = true)
    (hsync : v.sync ≠ .uninitialized) (hslew : 0 ≤ v.slewFramesPerSecond)
    (hzero : v.correctionFrames = 0) {now : Nat} {frames : ℚ}
    (hframes : frames = (((v.timeline.at (v.mapping.leaderTime now)).1.fixed -
      before.position.fixed : Int) : ℚ) / q32) :
    Correction.Describes before (v.evaluate now) (some (.hardResync frames)) := by
  obtain ⟨hposition, hframes'⟩ := View.evaluate_of_zero hclock hsync hslew hzero now
  refine ⟨hframes', ?_⟩
  have hq32 : (q32 : ℚ) ≠ 0 := by norm_num [q32]
  rw [hposition, hframes, div_mul_cancel₀ _ hq32]

/-- Continuing from `before`: either the output stays there and slews, or it
jumps to the trajectory by the reported amount. -/
theorem correct_describes {c : FollowerCore} (hslew : 0 ≤ c.view.slewFramesPerSecond)
    (hclock : c.view.initialized = true) (hsync : c.view.sync ≠ .uninitialized)
    {before : Reading} {now : Nat} (measurement : Bool)
    (hdisc : c.tickDiscontinuity now = before.discontinuity) :
    Correction.Describes before ((c.correct before.position now measurement).1.view.evaluate now)
      (c.correct before.position now measurement).2 := by
  have houtcome := correct_outcome c before.position now measurement
  generalize c.correct before.position now measurement = result at houtcome ⊢
  cases houtcome with
  | resynced =>
      apply describes_hardResync (v := c.realigned.view) hclock hsync hslew rfl
      rw [trajectoryError, ← neg_div, ← Int.cast_neg, neg_sub]
      rfl
  | slewed =>
      have hreads : (c.slewing (c.trajectoryError before.position now) (c.tickDiscontinuity now)
          now).view.discontinuity now = c.tickDiscontinuity now :=
        congrArg c.view.timeline.discontinuityAt (View.evaluationTime_of_ne hsync now)
      obtain ⟨hposition, hframes⟩ := View.evaluate_of_start
        (v :=
          (c.slewing (c.trajectoryError before.position now) (c.tickDiscontinuity now) now).view)
        hclock hsync rfl hreads.symm before.position rfl
      exact ⟨hposition, hreads.trans hdisc, hframes.trans (neg_neg _).symm⟩

/-- A reading only depends on these parts of a view. -/
theorem reading_congr {v w : View} (htime : v.evaluationTime = w.evaluationTime) {now : Nat}
    (hat : v.timeline.at (w.evaluationTime now) = w.timeline.at (w.evaluationTime now))
    (hformat : v.timeline.format = w.timeline.format)
    (hclock : v.initialized = w.initialized)
    (hfallback : v.fallbackPosition = w.fallbackPosition)
    (hslew : v.slewFramesPerSecond = w.slewFramesPerSecond)
    (hframes : v.correctionFrames = w.correctionFrames) (hstart : v.correctionAt = w.correctionAt)
    (hdisc : v.correctionDiscontinuity = w.correctionDiscontinuity) :
    Correction.Describes (w.evaluate now) (v.evaluate now) none := by
  have hremaining : v.remaining now = w.remaining now := by
    simp only [View.remaining, htime, hat, hformat, hslew, hframes, hstart, hdisc]
  refine ⟨?_, ?_, ?_⟩
  · simp only [View.evaluate, hclock, htime, hat, hremaining, hfallback]
  · simp only [View.evaluate, hclock, htime, hat]
  · simp only [View.evaluate, htime, hat]

theorem state_describes {c : FollowerCore} (hinv : c.Inv)
    (hslew : 0 ≤ c.view.slewFramesPerSecond)
    (hclock : c.view.initialized = true) (t : Timeline) (now : Nat) :
    Correction.Describes (c.view.evaluate now) ((c.state t now).1.view.evaluate now)
      (c.state t now).2 := by
  have hsync : c.view.sync ≠ .uninitialized := hinv.sync ((View.initialized_iff _).mp hclock)
  have houtcome := state_outcome c t now
  generalize c.state t now = result at houtcome ⊢
  cases houtcome with
  | foreign => exact ⟨rfl, rfl, rfl⟩
  | adopted => trivial
  | refused => exact ⟨rfl, rfl, rfl⟩
  | jumped =>
      have htime : ((c.pin t.session).follow t now).view.evaluationTime now =
          c.view.mapping.leaderTime now :=
        View.evaluationTime_of_ne (v := ((c.pin t.session).follow t now).view) hsync now
      exact congrArg (c.latched t now).discontinuityAt htime
  | refined _ _ _ _ hsame =>
      exact correct_describes (c := (c.pin t.session).follow t now) hslew hclock hsync false hsame

theorem measurementTimed_describes {c : FollowerCore} (hinv : c.Inv)
    (hslew : 0 ≤ c.view.slewFramesPerSecond)
    (hclock : c.view.initialized = true) (e : Exchange) (publicationNs : Option Nat)
    (processedNs : Nat) :
    Correction.Describes (c.view.evaluate (measurementTime e processedNs))
      ((c.measurementTimed e publicationNs processedNs).1.view.evaluate
        (measurementTime e processedNs))
      (c.measurementTimed e publicationNs processedNs).2 := by
  -- An accepted exchange leaves the clock initialised and synchronization known.
  have hmapped (haccepted : (c.estimator.observeInner e).2 = true) :
      (c.observed e publicationNs processedNs).mapped.view.initialized = true ∧
        (c.observed e publicationNs processedNs).mapped.view.sync ≠ .uninitialized := by
    have hobserved := hinv.regular.observed
      (hinv.mapping ▸ (View.initialized_iff _).mp hclock)
    obtain ⟨last, hlast, hnonneg⟩ := hobserved
    have hreceipt := ClockEstimator.lastSampleNs_of_accepted hlast hnonneg haccepted
    refine ⟨(View.initialized_iff _).mpr hreceipt, ?_⟩
    exact (hinv.mapped e publicationNs processedNs).sync hreceipt
  have houtcome := measurementTimed_outcome c e publicationNs processedNs
  generalize c.measurementTimed e publicationNs processedNs = result at houtcome ⊢
  cases houtcome with
  | unpinned => exact ⟨rfl, rfl, rfl⟩
  | rejected => exact ⟨rfl, rfl, rfl⟩
  | acquired _ haccepted _ frames hframes =>
      obtain ⟨hafter, hsync⟩ := hmapped haccepted
      exact describes_hardResync
        (v := (c.observed e publicationNs processedNs).mapped.realigned.view) hafter hsync hslew
        rfl hframes
  | jumped _ haccepted disc hdisc =>
      obtain ⟨-, hsync⟩ := hmapped haccepted
      refine Eq.trans ?_ hdisc.symm
      exact congrArg c.view.timeline.discontinuityAt (View.evaluationTime_of_ne hsync _)
  | refined _ haccepted hsame =>
      obtain ⟨hafter, hsync⟩ := hmapped haccepted
      exact correct_describes (c := (c.observed e publicationNs processedNs).mapped) hslew hafter
        hsync true hsame

/-- Latching what is in effect moves nothing. -/
theorem ticked_describes {c : FollowerCore} (hinv : c.Inv) (hclock : c.view.initialized = true)
    (now staleAfter : Nat) :
    Correction.Describes (c.view.evaluate now) ((c.ticked now staleAfter).view.evaluate now)
      none := by
  have hreceipt := (View.initialized_iff _).mp hclock
  have hsync := hinv.sync hreceipt
  have hticked := (hinv.ticked now staleAfter).sync hreceipt
  have htime : (c.ticked now staleAfter).view.evaluationTime = c.view.evaluationTime := by
    funext x
    rw [View.evaluationTime_of_ne hticked, View.evaluationTime_of_ne hsync]
    rfl
  refine reading_congr htime ?_ rfl rfl rfl rfl rfl rfl rfl
  rw [View.evaluationTime_of_ne hsync]
  exact hinv.ordered.at_latch le_rfl le_rfl

theorem tick_describes {c : FollowerCore} (hinv : c.Inv) (hclock : c.view.initialized = true)
    (now staleAfter : Nat) :
    Correction.Describes (c.view.evaluate now) ((c.tick now staleAfter).1.view.evaluate now)
      (c.tick now staleAfter).2 := by
  have houtcome := tick_outcome c now staleAfter
  generalize c.tick now staleAfter = result at houtcome ⊢
  cases houtcome with
  | unknown => exact ⟨rfl, rfl, rfl⟩
  | reported =>
      have hsync := hinv.sync ((View.initialized_iff _).mp hclock)
      have hsame := (ticked_describes hinv hclock now staleAfter).2.2
      apply hsame.trans
      exact congrArg c.view.timeline.discontinuityAt (View.evaluationTime_of_ne hsync now)
  | silent => exact ticked_describes hinv hclock now staleAfter

theorem correct_resyncGeneration (c : FollowerCore) (before : Position) (now : Nat)
    (measurement : Bool) :
    (c.correct before now measurement).1.view.resyncGeneration =
      if Correction.Resyncs (c.correct before now measurement).2 then
        min (c.view.resyncGeneration + 1) u64Max
      else c.view.resyncGeneration := by
  have houtcome := correct_outcome c before now measurement
  generalize c.correct before now measurement = result at houtcome ⊢
  cases houtcome <;> rfl

/-- The generation counts new sessions and hard resynchronizations. -/
theorem step_resyncGeneration (c : FollowerCore) (op : Op) :
    (c.step op).1.view.resyncGeneration =
      if Correction.Resyncs (c.step op).2 then min (c.view.resyncGeneration + 1) u64Max
      else c.view.resyncGeneration := by
  cases op with
  | connected => rfl
  | disconnected => rfl
  | state t now =>
      rw [step]
      have houtcome := state_outcome c t.timeline now
      generalize c.state t.timeline now = result at houtcome ⊢
      cases houtcome with
      | refined => exact correct_resyncGeneration _ _ _ _
      | _ => rfl
  | measurementTimed e publicationNs processedNs =>
      rw [step]
      have houtcome := measurementTimed_outcome c e publicationNs processedNs
      generalize c.measurementTimed e publicationNs processedNs = result at houtcome ⊢
      cases houtcome with
      | refined => exact correct_resyncGeneration _ _ _ _
      | _ => rfl
  | tick now staleAfter =>
      rw [step]
      have houtcome := tick_outcome c now staleAfter
      generalize c.tick now staleAfter = result at houtcome ⊢
      cases houtcome <;> rfl

/-- In every reachable follower with an initialised clock and a policy that the
clients admit, the correction that an operation returns describes the readings
around it, and the resync generation rises by one exactly with a new session or
a hard resync. -/
theorem correction_exact {c : FollowerCore} (hreach : c.Reachable) (hpolicy : c.policy.Admitted)
    (hclock : c.view.initialized = true) (op : Op) :
    (∀ now ∈ op.time, Correction.Describes (c.view.evaluate now)
      ((c.step op).1.view.evaluate now) (c.step op).2) ∧
    (c.view.resyncGeneration < u64Max →
      (c.step op).1.view.resyncGeneration =
        c.view.resyncGeneration + if Correction.Resyncs (c.step op).2 then 1 else 0) := by
  have hinv := hreach.inv
  have hslew := hreach.slewsForward hpolicy.1.le
  constructor
  · intro now htime
    cases op with
    | connected => exact absurd htime (by simp [Op.time])
    | disconnected => exact absurd htime (by simp [Op.time])
    | state t at_ =>
        obtain rfl := Option.mem_some_iff.mp htime
        exact state_describes hinv hslew hclock t.timeline at_
    | measurementTimed e publicationNs processedNs =>
        obtain rfl := Option.mem_some_iff.mp htime
        exact measurementTimed_describes hinv hslew hclock e publicationNs processedNs
    | tick at_ staleAfter =>
        obtain rfl := Option.mem_some_iff.mp htime
        exact tick_describes hinv hclock at_ staleAfter
  · intro hbelow
    rw [step_resyncGeneration]
    split_ifs
    · exact Nat.min_eq_left hbelow
    · rfl

/-- A second exchange with ten milliseconds on the return path, processed just
after the scheduled jump. -/
theorem correction_exact_of_late_reply :
    Correction.Describes (sampleFollower.view.evaluate 1100500000)
      ((sampleFollower.step (.measurementTimed
        ⟨1090000000, 1090000000, 1090000000, 1100000000⟩ none 1100500000)).1.view.evaluate
          1100500000)
      (sampleFollower.step (.measurementTimed
        ⟨1090000000, 1090000000, 1090000000, 1100000000⟩ none 1100500000)).2 ∧
    (sampleFollower.step (.measurementTimed
      ⟨1090000000, 1090000000, 1090000000, 1100000000⟩ none 1100500000)).1.view.resyncGeneration =
        3 := by
  obtain ⟨hdescribes, hgeneration⟩ := correction_exact sampleFollower_reachable
    (by decide +kernel) (by decide +kernel) (.measurementTimed
      ⟨1090000000, 1090000000, 1090000000, 1100000000⟩ none 1100500000)
  exact ⟨hdescribes 1100500000 rfl, (hgeneration (by decide +kernel)).trans (by decide +kernel)⟩

end FollowerCore

end Tidkod
