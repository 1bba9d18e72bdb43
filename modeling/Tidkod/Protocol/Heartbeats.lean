import Mathlib.Tactic
import Tidkod.Lib.Ramp
import Tidkod.Protocol.Confirmation
import Tidkod.Protocol.Latching
import Tidkod.Protocol.SlewMotion

/-!
Heartbeats during a correction. A snapshot that changes nothing but the revision makes
the follower read its output, take the distance from the trajectory as a new error and
start a slew from there. With a settle time each such slew is slower than the one before,
so that the correction runs along a hyperbola at worst; with the fixed speed of the legacy
policy nothing but a rounding to Q32 is lost, unless the position is out of range.
-/

namespace Tidkod

open Rounding TimedQueue Ramp

namespace View

variable {v : View}

/-- A correction of the discontinuity in effect runs down. -/
theorem abs_remaining {t : Nat} (h : (v.entry t).discontinuity = v.correctionDiscontinuity) :
    |v.remaining t| =
      left |v.correctionFrames| (v.slewRate (v.entry t)) ((t - v.correctionAt : Nat) : ℚ) := by
  rw [remaining_eq, if_pos h, abs_mul, abs_signum, mul_one]
  exact abs_of_nonneg (le_max_right _ _)

/-- What is left of a correction has its sign. -/
theorem shrinks_remaining (hslew : 0 ≤ v.slewFramesPerSecond) (t : Nat) :
    Shrinks v.correctionFrames (v.remaining t) := by
  constructor
  · by_cases hdisc : (v.entry t).discontinuity = v.correctionDiscontinuity
    · rw [abs_remaining hdisc]
      exact left_le (abs_nonneg _) (slewRate_nonneg hslew _) (Nat.cast_nonneg _)
    · rw [remaining_eq, if_neg hdisc, abs_zero]
      exact abs_nonneg _
  · obtain ⟨hneg, hpos⟩ := v.remaining_sign t
    rcases lt_trichotomy v.correctionFrames 0 with hbehind | hzero | hahead
    · exact mul_nonneg_of_nonpos_of_nonpos hbehind.le (hneg hbehind)
    · rw [hzero, zero_mul]
    · exact mul_nonneg hahead.le (hpos hahead)

/-- The distance of an output from its trajectory: what is left of the correction, cut off
where the position is out of range and truncated to Q32. -/
theorem shown_error (p : Position) (x : ℚ) :
    Shrinks x (((clamp Position.fixedMin Position.fixedMax (p.fixed + asI128 (x * q32)) -
      p.fixed : Int) : ℚ) / q32) ∧
    (Position.fixedMin ≤ p.fixed + asI128 (x * q32) ∧
        p.fixed + asI128 (x * q32) ≤ Position.fixedMax →
      clamp Position.fixedMin Position.fixedMax (p.fixed + asI128 (x * q32)) - p.fixed =
        trunc (x * q32)) := by
  obtain ⟨hlo, hhi⟩ := p.fixed_mem
  have hsize : |((asI128 (x * q32) : Int) : ℚ)| ≤ |x| * q32 := by
    have hcast := abs_toSigned_le (by decide : i128Min ≤ 0) (by decide : 0 ≤ i128Max) (x * q32)
    rwa [abs_mul, abs_of_pos q32_pos] at hcast
  obtain ⟨hpositive, hnegative⟩ := asI128_sign (x := x * q32)
  have hrange : asI128 (x * q32) = clamp i128Min i128Max (trunc (x * q32)) := rfl
  generalize asI128 (x * q32) = units at hsize hpositive hnegative hrange ⊢
  generalize hshown : clamp Position.fixedMin Position.fixedMax (p.fixed + units) - p.fixed = shown
  have hbetween : |shown| ≤ |units| ∧ (0 ≤ units → 0 ≤ shown) ∧ (units ≤ 0 → shown ≤ 0) := by
    simp only [clamp, Int.abs_eq_natAbs] at hshown ⊢
    omega
  obtain ⟨hclose, hup, hdown⟩ := hbetween
  refine ⟨⟨?_, ?_⟩, ?_⟩
  · rw [abs_div, abs_of_pos q32_pos, div_le_iff₀ q32_pos]
    have hcast : |(shown : ℚ)| ≤ |(units : ℚ)| := by exact_mod_cast hclose
    exact hcast.trans hsize
  · rcases le_total 0 x with hx | hx
    · have hcast : (0 : ℚ) ≤ shown := by
        exact_mod_cast hup (hpositive (mul_nonneg hx q32_pos.le))
      exact mul_nonneg hx (div_nonneg hcast q32_pos.le)
    · have hcast : (shown : ℚ) ≤ 0 := by
        exact_mod_cast hdown (hnegative (mul_nonpos_of_nonpos_of_nonneg hx q32_pos.le))
      exact mul_nonneg_of_nonpos_of_nonpos hx (div_nonpos_of_nonpos_of_nonneg hcast q32_pos.le)
  · rintro ⟨hmin, hmax⟩
    rw [clamp_of_mem hmin hmax] at hshown
    simp only [Position.fixedMin, Position.fixedMax, i64Min, i64Max, q32] at hlo hhi hmin hmax
    simp only [clamp, i128Min, i128Max] at hrange
    omega

end View

/-- A heartbeat: the revision it carries and the local time at which it is processed. -/
structure Beat where
  revision : Nat
  time : Nat
  deriving DecidableEq

/-- The heartbeats are processed one after the other from one local time to another. -/
def Within (start : Nat) (beats : List Beat) (stop : Nat) : Prop :=
  (start :: (beats.map Beat.time ++ [stop])).IsChain (· ≤ ·)

instance (start : Nat) (beats : List Beat) (stop : Nat) : Decidable (Within start beats stop) :=
  inferInstanceAs (Decidable (List.IsChain _ _))

theorem within_nil {start stop : Nat} : Within start [] stop ↔ start ≤ stop := by
  simp [Within]

theorem within_cons {start stop : Nat} {beat : Beat} {rest : List Beat} :
    Within start (beat :: rest) stop ↔ start ≤ beat.time ∧ Within beat.time rest stop :=
  List.isChain_cons_cons

theorem Within.le {start stop : Nat} {beats : List Beat} (h : Within start beats stop) :
    start ≤ stop := by
  induction beats generalizing start with
  | nil => exact within_nil.mp h
  | cons beat rest ih =>
      obtain ⟨hfirst, hrest⟩ := within_cons.mp h
      exact hfirst.trans (ih hrest)

theorem Within.append {start middle stop : Nat} {first second : List Beat}
    (hfirst : Within start first middle) (hsecond : Within middle second stop) :
    Within start (first ++ second) stop := by
  induction first generalizing start with
  | nil =>
      have hle := within_nil.mp hfirst
      cases second with
      | nil => exact within_nil.mpr (hle.trans (within_nil.mp hsecond))
      | cons beat rest =>
          obtain ⟨hnext, hrest⟩ := within_cons.mp hsecond
          exact within_cons.mpr ⟨hle.trans hnext, hrest⟩
  | cons beat rest ih =>
      obtain ⟨hnext, hrest⟩ := within_cons.mp hfirst
      exact within_cons.mpr ⟨hnext, ih hrest⟩

namespace FollowerCore

/-- The current timeline again, under another revision. -/
def heartbeat (c : FollowerCore) (beat : Beat) : FollowerCore × Option Correction :=
  c.state { c.view.timeline with revision := beat.revision } beat.time

/-- The speed with which a policy slews a correction away, before the limit of a tenth of
the playback. -/
def slewSpeed (policy : CorrectionPolicy) (frames : ℚ) : ℚ :=
  if policy.settleTimeNs = 0 then policy.slewFramesPerSecond
  else |frames| * 1000000000 / policy.settleTimeNs

/-- The correction of a follower is the one that a slew started with at a local time. -/
structure Slews (c : FollowerCore) (start : Nat) : Prop where
  started : c.view.correctionAt = start
  discontinuity : c.view.correctionDiscontinuity = c.view.discontinuity start
  speed : c.view.slewFramesPerSecond = slewSpeed c.policy c.view.correctionFrames

/-- Snapshots cannot complete the confirmation of a jump from the correction under way. -/
def Unforced (c : FollowerCore) : Prop :=
  c.large < c.policy.confirmations ∨
    |c.view.correctionFrames| ≤ c.policy.hardThresholdFrames ∨ c.view.correctionFrames = 0

variable {c : FollowerCore}

theorem unforced_correct (c : FollowerCore) (before : Position) (now : Nat) (measurement : Bool) :
    (c.correct before now measurement).1.Unforced := by
  rw [correct_eq]
  split_ifs with hjump
  · exact Or.inr (Or.inr rfl)
  · rcases not_and_or.mp hjump with hsmall | hfew
    · exact Or.inr (Or.inl (not_lt.mp hsmall))
    · exact Or.inl (not_le.mp hfew)

theorem Unforced.of_large_zero {d : FollowerCore} (h : c.Unforced) (hpolicy : d.policy = c.policy)
    (hlarge : d.large = 0) (hframes : d.view.correctionFrames = c.view.correctionFrames) :
    d.Unforced := by
  unfold Unforced at h ⊢
  rw [hpolicy, hlarge, hframes]
  exact h.imp_left (Nat.zero_le _).trans_lt

theorem Unforced.step (h : c.Unforced) (op : Op) : (c.step op).1.Unforced := by
  cases op with
  | connected => exact h.of_large_zero rfl rfl rfl
  | disconnected => exact h
  | state t now =>
      rw [FollowerCore.step]
      have houtcome := state_outcome c t.timeline now
      generalize c.state t.timeline now = result at houtcome ⊢
      cases houtcome with
      | foreign => exact h
      | adopted => exact Or.inr (Or.inr rfl)
      | refused => exact h
      | jumped => exact Or.inr (Or.inr rfl)
      | refined => exact unforced_correct _ _ _ _
  | measurementTimed e publicationNs processedNs =>
      rw [FollowerCore.step]
      have houtcome := measurementTimed_outcome c e publicationNs processedNs
      generalize c.measurementTimed e publicationNs processedNs = result at houtcome ⊢
      cases houtcome with
      | unpinned => exact h
      | rejected => exact h
      | acquired => exact Or.inr (Or.inr rfl)
      | jumped => exact Or.inr (Or.inr rfl)
      | refined => exact unforced_correct _ _ _ _
  | tick now staleAfter =>
      rw [FollowerCore.step]
      have houtcome := tick_outcome c now staleAfter
      generalize c.tick now staleAfter = result at houtcome ⊢
      cases houtcome with
      | unknown => exact h
      | reported => exact h.of_large_zero rfl rfl rfl
      | silent => exact h

theorem Reachable.unforced (h : c.Reachable) : c.Unforced := by
  obtain ⟨position, format, policy, hreach⟩ := h
  exact hreach.invariant (Or.inr (Or.inr rfl)) (fun _ op hunforced => hunforced.step op)

/-- A snapshot that finds an error no larger than the correction starts a slew, or finds
nothing left to correct. -/
theorem Unforced.correct_heard (h : c.Unforced) (before : Position) (now : Nat)
    (herror : |c.trajectoryError before now| ≤ |c.view.correctionFrames|) :
    ∃ large largeSign,
      (c.view.correctionFrames = 0 ∧ (c.correct before now false).1 =
          { c.realigned with large := large, largeSign := largeSign }) ∨
        (c.correct before now false).1 =
          { c.slewing (c.trajectoryError before now) (c.tickDiscontinuity now) now with
            large := large, largeSign := largeSign } := by
  have hheard := countLarge_le c (c.trajectoryError before now)
  rw [correct_eq, countLarge_eq]
  split_ifs with hjump
  · refine ⟨_, _, Or.inl ⟨?_, rfl⟩⟩
    obtain ⟨hlarge, hconfirmed⟩ := hjump
    rcases h with hfew | hsmall | hzero
    · exact absurd (hconfirmed.trans hheard) (not_le.mpr hfew)
    · exact absurd (herror.trans hsmall) (not_le.mpr hlarge)
    · exact hzero
  · exact ⟨_, _, Or.inr rfl⟩

/-- Reading just before and just after a heartbeat gives the same output. -/
def Unmoved (c : FollowerCore) (beat : Beat) : Prop :=
  Correction.Describes (c.view.evaluate beat.time) ((c.heartbeat beat).1.view.evaluate beat.time)
    none

/-- The trajectory with the correction added is representable at a heartbeat. -/
def InRange (c : FollowerCore) (beat : Beat) : Prop :=
  Position.fixedMin ≤ (c.view.timeline.at (c.view.mapping.leaderTime beat.time)).1.fixed +
      asI128 (c.view.remaining beat.time * q32) ∧
    (c.view.timeline.at (c.view.mapping.leaderTime beat.time)).1.fixed +
      asI128 (c.view.remaining beat.time * q32) ≤ Position.fixedMax

instance (c : FollowerCore) (beat : Beat) : Decidable (c.InRange beat) :=
  inferInstanceAs (Decidable (_ ∧ _))

/-- The effect of a heartbeat on the correction: none, or a slew from what was left. -/
def Restarts (c : FollowerCore) (beat : Beat) (d : FollowerCore) : Prop :=
  (d.view.correctionFrames = c.view.correctionFrames ∧
      d.view.correctionAt = c.view.correctionAt) ∨
    (d.view.correctionAt = beat.time ∧
      Shrinks (c.view.remaining beat.time) d.view.correctionFrames ∧
      (c.InRange beat →
        d.view.correctionFrames * q32 = trunc (c.view.remaining beat.time * q32)))

/-- A follower with the heartbeat's timeline taken over. -/
def heard (c : FollowerCore) (beat : Beat) : FollowerCore :=
  (c.pin c.view.timeline.session).follow
    { c.view.timeline with revision := beat.revision } beat.time

theorem InSession.tickDiscontinuity (h : c.InSession) (now : Nat) :
    c.tickDiscontinuity now = (c.view.entry now).discontinuity := by
  rw [FollowerCore.tickDiscontinuity, Timeline.discontinuityAt_eq, View.entry,
    View.evaluationTime_of_ne h]

/-- What a heartbeat latches is in effect already. -/
theorem heard_latches (hinv : c.Inv) (hsession : c.InSession) (beat : Beat) :
    max c.view.timeline.discontinuity (c.view.discontinuity beat.time) ≤
      c.view.timeline.discontinuityAt (c.view.mapping.leaderTime beat.time) :=
  max_le (hinv.ordered.le_discontinuityAt _) (hsession.discontinuity _).le

theorem heard_entry (hinv : c.Inv) (hsession : c.InSession) {beat : Beat} {t : Nat}
    (ht : beat.time ≤ t) : (c.heard beat).view.entry t = c.view.entry t := by
  have hdrift : |c.view.mapping.drift| ≤ maxDrift := hinv.mapping ▸ hinv.regular.drift
  have hlatches := heard_latches hinv hsession beat
  rw [Timeline.discontinuityAt_eq] at hlatches
  unfold View.entry
  rw [View.evaluationTime_of_ne hsession,
    View.evaluationTime_of_ne (v := (c.heard beat).view) hsession]
  exact TimedQueue.Ordered.current_popWhile_key (ClockMapping.leaderTime_mono hdrift ht)
    hinv.ordered hlatches

/-- A heartbeat is refused as an old one, or the correction is taken up again. -/
theorem heartbeat_outcome (hinv : c.Inv) (hsession : c.InSession) (beat : Beat) :
    (c.heartbeat beat).1 = c.pin c.view.timeline.session ∨
      (c.heartbeat beat).1 =
        ((c.heard beat).correct (c.view.evaluate beat.time).position beat.time false).1 := by
  have houtcome :=
    c.state_outcome { c.view.timeline with revision := beat.revision } beat.time
  unfold heartbeat
  generalize c.state { c.view.timeline with revision := beat.revision } beat.time = result
    at houtcome ⊢
  cases houtcome with
  | foreign s hexpected hother => exact absurd (hinv.pinned s hexpected) hother
  | adopted _ hother => exact absurd rfl hother
  | refused => exact Or.inl rfl
  | jumped _ _ _ _ hjump =>
      apply absurd _ hjump
      rw [hsession.discontinuity]
      exact hinv.ordered.discontinuityAt_latch le_rfl (heard_latches hinv hsession beat)
  | refined => exact Or.inr rfl

/-- The error that a heartbeat finds is what is left of the correction. -/
theorem heard_error (hinv : c.Inv) (hclock : c.view.initialized = true) (hsession : c.InSession)
    (beat : Beat) :
    Shrinks (c.view.remaining beat.time)
      ((c.heard beat).trajectoryError (c.view.evaluate beat.time).position beat.time) ∧
    (c.InRange beat →
      (c.heard beat).trajectoryError (c.view.evaluate beat.time).position beat.time * q32 =
        trunc (c.view.remaining beat.time * q32)) := by
  have hat : (c.heard beat).view.timeline.at (c.view.mapping.leaderTime beat.time) =
      c.view.timeline.at (c.view.mapping.leaderTime beat.time) :=
    hinv.ordered.at_latch le_rfl (heard_latches hinv hsession beat)
  have htrajectory : ((c.heard beat).view.timeline.at
      ((c.heard beat).view.mapping.leaderTime beat.time)).1 =
        (c.view.timeline.at (c.view.mapping.leaderTime beat.time)).1 := congrArg Prod.fst hat
  obtain ⟨hshrinks, hexact⟩ := View.shown_error
    (c.view.timeline.at (c.view.mapping.leaderTime beat.time)).1 (c.view.remaining beat.time)
  unfold trajectoryError
  rw [htrajectory, View.evaluate_position hclock, Position.fixed_fromFixed,
    View.evaluationTime_of_ne hsession]
  refine ⟨hshrinks, fun hrange => ?_⟩
  rw [div_mul_cancel₀ _ q32_pos.ne', hexact hrange]

/-- The same entry and position in effect read the same. -/
theorem describes_none {v w : View} (hv : v.initialized = true) (hw : w.initialized = true)
    {t : Nat} (hentry : w.entry t = v.entry t)
    (hposition : (w.evaluate t).position = (v.evaluate t).position) :
    Correction.Describes (v.evaluate t) (w.evaluate t) none := by
  refine ⟨hposition, ?_, ?_⟩
  · rw [View.evaluate_rate hw, View.evaluate_rate hv, hentry]
  · rw [View.evaluate_discontinuity, View.evaluate_discontinuity, View.discontinuity,
      View.discontinuity, Timeline.discontinuityAt_eq, Timeline.discontinuityAt_eq]
    exact congrArg Scheduled.discontinuity hentry

section Continues

variable {d : FollowerCore} {start horizon now : Nat}

/-- What heartbeats leave as it was when a correction started: everything but the
correction, which has only become smaller. -/
structure Continues (c : FollowerCore) (start horizon now : Nat) (d : FollowerCore) : Prop where
  forward : c.policy.settleTimeNs = 0 → 0 ≤ c.policy.slewFramesPerSecond
  inv : d.Inv
  unforced : d.Unforced
  policy : d.policy = c.policy
  clock : d.view.initialized = true
  format : d.view.timeline.format = c.view.timeline.format
  entry : ∀ t, now ≤ t → t ≤ horizon → d.view.entry t = c.view.entry start
  discontinuity : d.view.correctionDiscontinuity = (c.view.entry start).discontinuity
  mapping : d.view.mapping = c.view.mapping
  started : start ≤ d.view.correctionAt ∧ d.view.correctionAt ≤ now
  speed : d.view.slewFramesPerSecond = slewSpeed c.policy d.view.correctionFrames
  shrinks : Shrinks c.view.correctionFrames d.view.correctionFrames

namespace Continues

theorem slew_nonneg (h : Continues c start horizon now d) : 0 ≤ d.view.slewFramesPerSecond := by
  rw [h.speed]
  unfold slewSpeed
  split_ifs with hfixed
  · exact h.forward hfixed
  · positivity

theorem inSession (h : Continues c start horizon now d) : d.InSession :=
  h.inv.sync ((View.initialized_iff _).mp h.clock)

theorem later (h : Continues c start horizon now d) {t : Nat} (ht : now ≤ t) :
    Continues c start horizon t d :=
  { h with
    entry := fun u htu => h.entry u (ht.trans htu)
    started := ⟨h.started.1, h.started.2.trans ht⟩ }

theorem slewRate_eq (h : Continues c start horizon now d) (entry : Scheduled) :
    d.view.slewRate entry =
      min (slewSpeed c.policy d.view.correctionFrames)
        (c.view.timeline.format.fps * |entry.anchor.rate.asF64| * (1 / 10)) / 1000000000 := by
  rw [View.slewRate, h.speed, h.format]

/-- What is left at any time while the heartbeats go on. -/
theorem abs_remaining (h : Continues c start horizon now d) {t : Nat} (ht : now ≤ t)
    (hhorizon : t ≤ horizon) :
    |d.view.remaining t| = left |d.view.correctionFrames|
      (d.view.slewRate (c.view.entry start)) ((t - d.view.correctionAt : Nat) : ℚ) := by
  have hentry := h.entry t ht hhorizon
  rw [View.abs_remaining (by rw [hentry, h.discontinuity]), hentry]

/-- The same slew leaves the same. -/
theorem remaining_congr {e : FollowerCore} (h : Continues c start horizon now d)
    (h' : Continues c start horizon now e)
    (hframes : e.view.correctionFrames = d.view.correctionFrames)
    (hstarted : e.view.correctionAt = d.view.correctionAt) {t : Nat} (ht : now ≤ t)
    (hhorizon : t ≤ horizon) : e.view.remaining t = d.view.remaining t := by
  rw [View.remaining_eq, View.remaining_eq, h.entry t ht hhorizon, h'.entry t ht hhorizon,
    h.discontinuity, h'.discontinuity, h.slewRate_eq, h'.slewRate_eq, hframes, hstarted]

theorem heard (h : Continues c start horizon now d) {beat : Beat} (hnow : now ≤ beat.time) :
    Continues c start horizon beat.time (d.heard beat) :=
  { h.later hnow with
    inv := h.inv.follow (t := { d.view.timeline with revision := beat.revision }) h.inv.ordered _
    entry := fun t ht hhorizon =>
      (heard_entry h.inv h.inSession ht).trans (h.entry t (hnow.trans ht) hhorizon) }

/-- A heartbeat moves no output and lets the correction go on, from where it was or from
what is left of it. -/
theorem heartbeat (h : Continues c start horizon now d) {beat : Beat} (hnow : now ≤ beat.time)
    (hhorizon : beat.time ≤ horizon) :
    Continues c start horizon beat.time (d.heartbeat beat).1 ∧ d.Unmoved beat ∧
      d.Restarts beat (d.heartbeat beat).1 := by
  have hheard := h.heard hnow
  have hentry := h.entry beat.time hnow hhorizon
  have hremaining := View.shrinks_remaining h.slew_nonneg beat.time
  obtain ⟨hleft, hexact⟩ := heard_error h.inv h.clock h.inSession beat
  have hinv : (d.heartbeat beat).1.Inv :=
    h.inv.state (t := { d.view.timeline with revision := beat.revision }) h.inv.ordered _
  unfold Unmoved
  rcases heartbeat_outcome h.inv h.inSession beat with hrefused | htaken
  · rw [hrefused] at hinv ⊢
    exact ⟨{ h.later hnow with inv := hinv }, ⟨rfl, rfl, rfl⟩, Or.inl ⟨rfl, rfl⟩⟩
  have hunforced := unforced_correct (d.heard beat) (d.view.evaluate beat.time).position
    beat.time false
  obtain ⟨large, largeSign, ⟨hzero, hresult⟩ | hresult⟩ :=
    hheard.unforced.correct_heard _ _ (hleft.1.trans hremaining.1)
  all_goals
    rw [htaken, hresult] at hinv
    rw [hresult] at hunforced
    rw [htaken, hresult]
  · -- Nothing is left and nothing changes.
    have hnothing : d.view.correctionFrames = 0 := hzero
    have hspeed := h.speed
    have hshrinks := h.shrinks
    rw [hnothing] at hspeed hshrinks
    have hafter : Continues c start horizon beat.time
        { (d.heard beat).realigned with large := large, largeSign := largeSign } :=
      { hheard with inv := hinv, unforced := hunforced, speed := hspeed, shrinks := hshrinks }
    refine ⟨hafter, ?_, Or.inl ⟨hnothing.symm, rfl⟩⟩
    have hentry' := hafter.entry _ le_rfl hhorizon
    apply describes_none h.clock hafter.clock (hentry'.trans hentry.symm)
    rw [View.evaluate_entry h.clock, View.evaluate_entry hafter.clock, hentry, hentry',
      View.remaining_of_zero h.slew_nonneg hnothing, View.remaining_of_zero hafter.slew_nonneg rfl,
      View.evaluationTime_of_ne h.inSession, View.evaluationTime_of_ne hafter.inSession]
    rfl
  · have hafter : Continues c start horizon beat.time
        { (d.heard beat).slewing ((d.heard beat).trajectoryError
            (d.view.evaluate beat.time).position beat.time)
              ((d.heard beat).tickDiscontinuity beat.time) beat.time with
          large := large, largeSign := largeSign } :=
      { hheard with
        inv := hinv
        unforced := hunforced
        discontinuity :=
          (hheard.inSession.tickDiscontinuity _).trans
            (congrArg Scheduled.discontinuity (hheard.entry _ le_rfl hhorizon))
        started := ⟨h.started.1.trans (h.started.2.trans hnow), le_rfl⟩
        speed := h.policy ▸ rfl
        shrinks := h.shrinks.trans (hremaining.trans hleft) }
    refine ⟨hafter, ?_, Or.inr ⟨rfl, hleft, hexact⟩⟩
    apply describes_none h.clock hafter.clock ((hafter.entry _ le_rfl hhorizon).trans hentry.symm)
    exact (View.evaluate_of_start hafter.clock hafter.inSession rfl
      (hheard.inSession.discontinuity _).symm _ rfl).1

/-- A correction that starts is the first to go on. -/
theorem of_slews (hinv : c.Inv) (hunforced : c.Unforced) (hclock : c.view.initialized = true)
    (hforward : c.policy.settleTimeNs = 0 → 0 ≤ c.policy.slewFramesPerSecond)
    (hslews : c.Slews start) (hquiet : c.view.Quiet start horizon) :
    Continues c start horizon start c where
  forward := hforward
  inv := hinv
  unforced := hunforced
  policy := rfl
  clock := hclock
  format := rfl
  entry := by
    intro t ht hhorizon
    have hsession := hinv.sync ((View.initialized_iff _).mp hclock)
    have hdrift : |c.view.mapping.drift| ≤ maxDrift := hinv.mapping ▸ hinv.regular.drift
    exact (hquiet.anti hdrift hhorizon).entry ⟨hclock, hsession⟩ hdrift ht
  discontinuity := by
    rw [hslews.discontinuity, View.discontinuity, Timeline.discontinuityAt_eq]
    rfl
  mapping := rfl
  started := ⟨hslews.started.ge, hslews.started.le⟩
  speed := hslews.speed
  shrinks := Shrinks.refl _

/-- The induction over heartbeats for what may depend on their number. -/
theorem run {P : Nat → FollowerCore → Prop} {G : FollowerCore → Beat → Prop}
    (hstep : ∀ n now d beat, Continues c start horizon now d → now ≤ beat.time →
      beat.time ≤ horizon → G d beat → P n d → P (n + 1) (d.heartbeat beat).1)
    (h : Continues c start horizon now d) {n : Nat} (hP : P n d) {beats : List Beat} {t : Nat}
    (hwithin : Within now beats t) (ht : t ≤ horizon)
    (hguard : Machine.Along FollowerCore.heartbeat G d beats) :
    Continues c start horizon t (Machine.run FollowerCore.heartbeat d beats) ∧
      P (n + beats.length) (Machine.run FollowerCore.heartbeat d beats) := by
  induction beats generalizing d now n with
  | nil => exact ⟨h.later (within_nil.mp hwithin), hP⟩
  | cons beat rest ih =>
      obtain ⟨hnow, hrest⟩ := within_cons.mp hwithin
      obtain ⟨hfirst, hguards⟩ := hguard
      have hbeat := hrest.le.trans ht
      have hnext := ih (h.heartbeat hnow hbeat).1 (hstep n now d beat h hnow hbeat hfirst hP)
        hrest hguards
      rw [List.length_cons, Nat.add_comm rest.length, ← Nat.add_assoc]
      exact hnext

/-- What is left of the correction only shrinks, whatever heartbeats come between. -/
theorem run_shrinks (h : Continues c start horizon now d) {beats : List Beat} {t : Nat}
    (hwithin : Within now beats t) (ht : t ≤ horizon) :
    Continues c start horizon t (Machine.run FollowerCore.heartbeat d beats) ∧
      Machine.Along FollowerCore.heartbeat Unmoved d beats ∧
      Shrinks (d.view.remaining now)
        ((Machine.run FollowerCore.heartbeat d beats).view.remaining t) := by
  have hlater {d : FollowerCore} {now t : Nat} (h : Continues c start horizon now d)
      (hnow : now ≤ t) (ht : t ≤ horizon) :
      Shrinks (d.view.remaining now) (d.view.remaining t) :=
    View.remaining_shrinks h.slew_nonneg hnow
      ((h.entry t hnow ht).trans (h.entry now le_rfl (hnow.trans ht)).symm)
  induction beats generalizing d now with
  | nil =>
      have hnow := within_nil.mp hwithin
      exact ⟨h.later hnow, trivial, hlater h hnow ht⟩
  | cons beat rest ih =>
      obtain ⟨hnow, hrest⟩ := within_cons.mp hwithin
      have hbeat := hrest.le.trans ht
      obtain ⟨hnext, hunmoved, hrestarts⟩ := h.heartbeat hnow hbeat
      obtain ⟨hlast, halong, hend⟩ := ih hnext hrest
      refine ⟨hlast, ⟨hunmoved, halong⟩, (hlater h hnow hbeat).trans (Shrinks.trans ?_ hend)⟩
      rcases hrestarts with ⟨hframes, hstarted⟩ | ⟨-, hleft, -⟩
      · have hwhole := h.later hnow
        rw [hwhole.remaining_congr hnext hframes hstarted le_rfl hbeat]
        exact Shrinks.refl _
      · exact hleft.trans (View.shrinks_remaining hnext.slew_nonneg _)

/-- With a settle time, a slew that the limit on slewing does not touch takes that time. -/
theorem slewRate_of_slow (h : Continues c start horizon now d)
    (hsettle : c.policy.settleTimeNs ≠ 0)
    (hslow : |c.view.correctionFrames| * 1000000000 / c.policy.settleTimeNs ≤
      c.view.timeline.format.fps * |(c.view.entry start).anchor.rate.asF64| * (1 / 10)) :
    d.view.slewRate (c.view.entry start) =
      |d.view.correctionFrames| / c.policy.settleTimeNs := by
  have hspeed : slewSpeed c.policy d.view.correctionFrames =
      |d.view.correctionFrames| * 1000000000 / c.policy.settleTimeNs := if_neg hsettle
  have hslower : |d.view.correctionFrames| * 1000000000 / c.policy.settleTimeNs ≤
      |c.view.correctionFrames| * 1000000000 / c.policy.settleTimeNs := by
    have hless := h.shrinks.1
    gcongr
  rw [h.slewRate_eq, hspeed, min_eq_left (hslower.trans hslow)]
  ring

/-- The correction that a slew started with is below the hyperbola of the first one. -/
def Decayed (c : FollowerCore) (start : Nat) (d : FollowerCore) : Prop :=
  |d.view.correctionFrames| *
    (1 + ((d.view.correctionAt - start : Nat) : ℚ) / c.policy.settleTimeNs) ≤
      |c.view.correctionFrames|

theorem decayed_remaining (h : Continues c start horizon now d)
    (hsettle : c.policy.settleTimeNs ≠ 0)
    (hslow : |c.view.correctionFrames| * 1000000000 / c.policy.settleTimeNs ≤
      c.view.timeline.format.fps * |(c.view.entry start).anchor.rate.asF64| * (1 / 10))
    (hdecayed : Decayed c start d) {t : Nat} (ht : now ≤ t) (hhorizon : t ≤ horizon) :
    |d.view.remaining t| * (1 + ((t - start : Nat) : ℚ) / c.policy.settleTimeNs) ≤
      |c.view.correctionFrames| := by
  have hpositive : (0 : ℚ) < c.policy.settleTimeNs := by
    exact_mod_cast Nat.pos_of_ne_zero hsettle
  have hsplit : ((t - start : Nat) : ℚ) =
      ((d.view.correctionAt - start : Nat) : ℚ) + ((t - d.view.correctionAt : Nat) : ℚ) := by
    have hstarted := h.started
    exact_mod_cast (by omega :
      t - start = (d.view.correctionAt - start) + (t - d.view.correctionAt))
  rw [h.abs_remaining ht hhorizon, h.slewRate_of_slow hsettle hslow, hsplit]
  exact left_hyperbola (abs_nonneg _) hpositive (Nat.cast_nonneg _) (Nat.cast_nonneg _) hdecayed

theorem decayed_heartbeat (h : Continues c start horizon now d)
    (hsettle : c.policy.settleTimeNs ≠ 0)
    (hslow : |c.view.correctionFrames| * 1000000000 / c.policy.settleTimeNs ≤
      c.view.timeline.format.fps * |(c.view.entry start).anchor.rate.asF64| * (1 / 10))
    (hdecayed : Decayed c start d) {beat : Beat} (hnow : now ≤ beat.time)
    (hhorizon : beat.time ≤ horizon) : Decayed c start (d.heartbeat beat).1 := by
  obtain ⟨-, -, hrestarts⟩ := h.heartbeat hnow hhorizon
  unfold Decayed
  rcases hrestarts with ⟨hframes, hstarted⟩ | ⟨hstarted, hleft, -⟩
  · rw [hframes, hstarted]
    exact hdecayed
  · rw [hstarted]
    refine le_trans ?_ (h.decayed_remaining hsettle hslow hdecayed hnow hhorizon)
    have hless := hleft.1
    gcongr

/-- The correction is as far along at a later time as without the heartbeats so far, but
for one Q32 unit for each. -/
def KeepsUp (c : FollowerCore) (t n : Nat) (d : FollowerCore) : Prop :=
  |d.view.remaining t| ≤ |c.view.remaining t| ∧
    |c.view.remaining t| ≤ |d.view.remaining t| + n / q32

theorem keepsUp_heartbeat (h : Continues c start horizon now d)
    (hlegacy : c.policy.settleTimeNs = 0) {n : Nat} (hkeeps : KeepsUp c horizon n d)
    {beat : Beat} (hnow : now ≤ beat.time) (hhorizon : beat.time ≤ horizon)
    (hrange : d.InRange beat) : KeepsUp c horizon (n + 1) (d.heartbeat beat).1 := by
  obtain ⟨hnext, -, hrestarts⟩ := h.heartbeat hnow hhorizon
  obtain ⟨hbelow, habove⟩ := hkeeps
  have hq32 := q32_pos
  -- What one heartbeat takes away.
  have hunit : |(d.heartbeat beat).1.view.remaining horizon| ≤ |d.view.remaining horizon| ∧
      |d.view.remaining horizon| ≤
        |(d.heartbeat beat).1.view.remaining horizon| + 1 / q32 := by
    rcases hrestarts with ⟨hframes, hstarted⟩ | ⟨hstarted, hleft, hexact⟩
    · rw [(h.later hnow).remaining_congr hnext hframes hstarted hhorizon le_rfl]
      exact ⟨le_rfl, le_add_of_nonneg_right (by positivity)⟩
    · have hspeed : (d.heartbeat beat).1.view.slewRate (c.view.entry start) =
          d.view.slewRate (c.view.entry start) := by
        rw [hnext.slewRate_eq, h.slewRate_eq, slewSpeed, slewSpeed, if_pos hlegacy, if_pos hlegacy]
      have hsplit : ((horizon - d.view.correctionAt : Nat) : ℚ) =
          ((beat.time - d.view.correctionAt : Nat) : ℚ) + ((horizon - beat.time : Nat) : ℚ) := by
        have hstarted' := h.started
        exact_mod_cast (by omega : horizon - d.view.correctionAt =
          (beat.time - d.view.correctionAt) + (horizon - beat.time))
      have hwhole : |d.view.remaining horizon| = left |d.view.remaining beat.time|
          (d.view.slewRate (c.view.entry start)) ((horizon - beat.time : Nat) : ℚ) := by
        rw [h.abs_remaining (hnow.trans hhorizon) le_rfl, h.abs_remaining hnow hhorizon, hsplit]
        exact (left_left (View.slewRate_nonneg h.slew_nonneg _) (Nat.cast_nonneg _)).symm
      obtain ⟨hless, hdistance⟩ := left_mono hleft.1 (d.view.slewRate (c.view.entry start))
        ((horizon - beat.time : Nat) : ℚ)
      rw [hnext.abs_remaining hhorizon le_rfl, hspeed, hstarted, hwhole]
      refine ⟨hless, ?_⟩
      -- The error found is what is left, truncated to a Q32 unit.
      have htruncated :
          |d.view.remaining beat.time| - |(d.heartbeat beat).1.view.correctionFrames| ≤
            1 / q32 := by
        have herror := abs_lt_abs_trunc_add_one (d.view.remaining beat.time * q32)
        rw [← hexact hrange, abs_mul, abs_mul, abs_of_pos hq32] at herror
        rw [le_div_iff₀ hq32, sub_mul]
        linarith
      linarith
  refine ⟨hunit.1.trans hbelow, habove.trans ?_⟩
  push_cast
  rw [add_div]
  linarith [hunit.2]

/-- Corrections that are apart by some Q32 units leave the outputs no further apart. -/
theorem output_of_keepsUp (hfirst : Continues c start horizon start c)
    (h : Continues c start horizon horizon d) (hstart : start ≤ horizon) {n : Nat}
    (hkeeps : KeepsUp c horizon n d) :
    |(d.view.evaluate horizon).position.fixed - (c.view.evaluate horizon).position.fixed| ≤ n := by
  have hentry := (h.entry horizon le_rfl le_rfl).trans (hfirst.entry horizon hstart le_rfl).symm
  have hside := (View.shrinks_remaining hfirst.slew_nonneg horizon).same_side
    (h.shrinks.trans (View.shrinks_remaining h.slew_nonneg horizon))
  obtain ⟨hbelow, habove⟩ := hkeeps
  have hq32 := q32_pos
  have hunits : |trunc (c.view.remaining horizon * q32) - trunc (d.view.remaining horizon * q32)| ≤
      n := by
    apply abs_trunc_sub_le_natCast
    · rw [mul_mul_mul_comm]
      exact mul_nonneg hside (mul_self_nonneg _)
    · rw [abs_mul, abs_mul]
      gcongr
    · rw [abs_mul, abs_mul, abs_of_pos hq32]
      calc |c.view.remaining horizon| * q32
          ≤ (|d.view.remaining horizon| + n / q32) * q32 := by gcongr
        _ = |d.view.remaining horizon| * q32 + n := by
          rw [add_mul, div_mul_cancel₀ _ hq32.ne']
  rw [View.evaluate_entry h.clock, View.evaluate_entry hfirst.clock, hentry,
    View.evaluationTime_of_ne h.inSession, View.evaluationTime_of_ne hfirst.inSession, h.mapping,
    h.format, Position.fixed_fromFixed, Position.fixed_fromFixed]
  refine (abs_clamp_sub_le _ _ _ _).trans ?_
  rw [add_sub_add_left_eq_sub, abs_sub_comm]
  exact (abs_clamp_sub_le _ _ _ _).trans hunits

end Continues

end Continues

/-- Heartbeats neither undo nor stall a correction. None of them moves the output, what is
left of the correction only shrinks, and with a settle time it is below the hyperbola when
the limit on slewing is not reached. Without one, and as long as the position is in range
at every heartbeat, they delay or advance the output by one Q32 unit each at most. -/
theorem heartbeats_keep_correction (hreach : c.Reachable) (hclock : c.view.initialized = true)
    {start t u : Nat} (hslews : c.Slews start)
    (hforward : c.policy.settleTimeNs = 0 → 0 ≤ c.policy.slewFramesPerSecond)
    {first second : List Beat} (hfirst : Within start first t) (hsecond : Within t second u)
    (hquiet : c.view.Quiet start u) :
    (Machine.Along heartbeat Unmoved c (first ++ second) ∧
      Shrinks ((Machine.run heartbeat c first).view.remaining t)
        ((Machine.run heartbeat c (first ++ second)).view.remaining u)) ∧
    (c.policy.settleTimeNs ≠ 0 →
      |c.view.correctionFrames| * 1000000000 / c.policy.settleTimeNs ≤
        c.view.timeline.format.fps * |(c.view.evaluate start).rate.asF64| / 10 →
      |(Machine.run heartbeat c first).view.remaining t| ≤
        |c.view.correctionFrames| / (1 + ((t - start : Nat) : ℚ) / c.policy.settleTimeNs)) ∧
    (c.policy.settleTimeNs = 0 → Machine.Along heartbeat InRange c (first ++ second) →
      |((Machine.run heartbeat c (first ++ second)).view.evaluate u).position.fixed -
        (c.view.evaluate u).position.fixed| ≤ (first ++ second).length) := by
  have hwithin := hfirst.append hsecond
  have hstart := Continues.of_slews hreach.inv hreach.unforced hclock hforward hslews hquiet
  refine ⟨⟨(hstart.run_shrinks hwithin le_rfl).2.1, ?_⟩, ?_, ?_⟩
  · obtain ⟨hmiddle, -, -⟩ := hstart.run_shrinks hfirst hsecond.le
    rw [Machine.run_append]
    exact (hmiddle.run_shrinks hsecond le_rfl).2.2
  · intro hsettle hslow
    rw [View.evaluate_rate hclock, ← mul_one_div (c.view.timeline.format.fps * _)] at hslow
    have hdecayed : Continues.Decayed c start c := by
      rw [Continues.Decayed, hslews.started, Nat.sub_self, Nat.cast_zero, zero_div, add_zero,
        mul_one]
    have halways : Machine.Along heartbeat (fun _ _ => True) c first :=
      (Machine.along_iff_initial heartbeat _ _ _).mpr (fun _ _ _ => trivial)
    obtain ⟨hmiddle, hlater⟩ := hstart.run (P := fun _ => Continues.Decayed c start) (n := 0)
      (fun _ _ d beat h hnow hhorizon _ hdecayed =>
        h.decayed_heartbeat hsettle hslow hdecayed hnow hhorizon)
      hdecayed hfirst hsecond.le halways
    have hpositive : (0 : ℚ) < 1 + ((t - start : Nat) : ℚ) / c.policy.settleTimeNs := by positivity
    rw [le_div_iff₀ hpositive]
    exact hmiddle.decayed_remaining hsettle hslow hlater le_rfl hsecond.le
  · intro hlegacy hrange
    have hnone : Continues.KeepsUp c u 0 c := by
      rw [Continues.KeepsUp, Nat.cast_zero, zero_div, add_zero]
      exact ⟨le_rfl, le_rfl⟩
    obtain ⟨hend, hkeeps⟩ := hstart.run (P := Continues.KeepsUp c u)
      (fun _ _ d beat h hnow hhorizon hrange hkeeps =>
        h.keepsUp_heartbeat hlegacy hkeeps hnow hhorizon hrange)
      hnone hwithin le_rfl hrange
    rw [Nat.zero_add] at hkeeps
    exact Continues.output_of_keepsUp hstart hend hwithin.le hkeeps

/-- The sample leader runs 100 µs further ahead than it did while the clock converged. -/
def slewingFollower : FollowerCore :=
  Machine.run step (new (fallback Position.zero FrameFormat.default) CorrectionPolicy.default)
    (convergence ++ [instantExchange 1650000000 100000])

theorem slewingFollower_reachable : slewingFollower.Reachable := ⟨_, _, _, _, rfl⟩

/-- Two heartbeats within 40 ms of a correction that settles in 250 ms. -/
theorem heartbeats_keep_correction_of_two :
    |(Machine.run heartbeat slewingFollower
        [⟨2, 1660000000⟩, ⟨3, 1680000000⟩]).view.remaining 1690000000| ≤
      |slewingFollower.view.correctionFrames| / (1 + 40000000 / 250000000) := by
  have hslews : slewingFollower.Slews 1650000000 :=
    ⟨by decide +kernel, by decide +kernel, by decide +kernel⟩
  have hfirst : Within 1650000000 [⟨2, 1660000000⟩, ⟨3, 1680000000⟩] 1690000000 := by decide
  have hsecond : Within 1690000000 [] 1690000000 := by decide
  have hquiet : slewingFollower.view.Quiet 1650000000 1690000000 := by
    unfold View.Quiet
    decide +kernel
  have hsettles := (heartbeats_keep_correction slewingFollower_reachable (by decide +kernel) hslews
    (by decide +kernel) hfirst hsecond hquiet).2.1 (by decide +kernel) (by decide +kernel)
  have hpolicy : slewingFollower.policy.settleTimeNs = 250000000 := by decide +kernel
  rw [hpolicy] at hsettles
  exact_mod_cast hsettles

/-- A leader whose clock ends ten million Q32 units before the last position. -/
def endingTimeline : Timeline :=
  { sampleTimeline with
    anchor := ⟨i64Max, Position.fromFixed (Position.fixedMax - 10000000), Rate.normal⟩
    scheduled := [] }

/-- A follower of that leader that sees it 2 ms before the end, and then 4 ms further behind. -/
def endingFollower : FollowerCore :=
  Machine.run step (new (fallback Position.zero FrameFormat.default) CorrectionPolicy.legacy)
    ([.connected, .state ⟨endingTimeline, by decide⟩ 900000000] ++
      ((List.range 13).map fun i =>
        instantExchange (1000000000 + 50000000 * i) (i64Max - 1652000000)) ++
      [instantExchange 1650000000 (i64Max - 1656000000)])

/-- At the end of the leader's clock the trajectory stands still while the correction still
runs down. A heartbeat there cuts the correction off at the last position. -/
theorem heartbeat_can_cut_off_correction :
    ¬ ∀ (c : FollowerCore) (start u : Nat) (beats : List Beat), c.Reachable →
      c.view.initialized = true → c.policy = CorrectionPolicy.legacy → c.Slews start →
      Within start beats u → c.view.Quiet start u →
      |((Machine.run heartbeat c beats).view.evaluate u).position.fixed -
        (c.view.evaluate u).position.fixed| ≤ beats.length := by
  intro hclaim
  have hquiet : endingFollower.view.Quiet 1650000000 1757000000 := by
    unfold View.Quiet
    decide +kernel
  have hdistance := hclaim endingFollower 1650000000 1757000000 [⟨2, 1657000000⟩]
    ⟨_, _, _, _, rfl⟩ (by decide +kernel) (by decide +kernel)
    ⟨by decide +kernel, by decide +kernel, by decide +kernel⟩ (by decide) hquiet
  revert hdistance
  decide +kernel

end FollowerCore

end Tidkod
