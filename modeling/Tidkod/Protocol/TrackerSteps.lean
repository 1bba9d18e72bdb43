import Mathlib.Tactic
import Tidkod.Protocol.Motion
import Tidkod.Protocol.TrackerEvidence

/-!
What one sample does to a tracker and its timeline. A sample is refused without effect,
or it introduces a discontinuity, or it refines the position; for a sample without a new
rate hint the three cases are told apart by the counters.
-/

namespace Tidkod

open Rounding

namespace Tracker

/-- A tracker and its timeline are fed samples, each with the time at which it is
processed. -/
def feed (st : Tracker × Timeline) (a : SourceSample × Nat) :
    (Tracker × Timeline) × Except Error Bool :=
  st.1.sample st.2 a.1 a.2

/-- The source is tracked, and the sample is from after the last one and not from after
now. -/
def Accepts (tr : Tracker) (t : Timeline) (s : SourceSample) (now : Nat) : Prop :=
  t.sourceKind = .tracked ∧ s.timestampNs ≤ now ∧ ∀ p ∈ tr.last, p.timestampNs < s.timestampNs

instance (tr : Tracker) (t : Timeline) (s : SourceSample) (now : Nat) :
    Decidable (tr.Accepts t s now) :=
  inferInstanceAs (Decidable (_ ∧ _ ∧ _))

/-- The sample has no rate hint, or one that is the present rate. -/
def Unhinted (t : Timeline) (s : SourceSample) : Prop := ∀ hint ∈ s.rateHint, hint = t.anchor.rate

instance (t : Timeline) (s : SourceSample) : Decidable (Unhinted t s) :=
  inferInstanceAs (Decidable (∀ _ ∈ _, _))

/-- How many changed speeds in a row agree after a sample with a changed speed. -/
def candidateCount (tr : Tracker) (speed : ℚ) : Nat :=
  ((tr.candidate.filter (fun p => |p.1 - speed| < 1 / 20)).map (fun p => p.2 + 1)).getD 1

/-- Without a new hint, the sample starts a new trajectory. -/
def Introduces (tr : Tracker) (t : Timeline) (s : SourceSample) : Prop :=
  s.discontinuity = true ∨ tr.last = none ∨ 3 ≤ (tr.countJumps (error t s)).jumps ∨
    1 / 50 < |tr.speed t s - t.anchor.rate.asF64| ∧ 3 ≤ tr.candidateCount (tr.speed t s)

instance (tr : Tracker) (t : Timeline) (s : SourceSample) : Decidable (tr.Introduces t s) :=
  inferInstanceAs (Decidable (_ ∨ _ ∨ _ ∨ _ ∧ _))

variable {tr : Tracker} {t : Timeline} {s : SourceSample} {now : Nat}

/-- A rate is within the range to which speeds are clamped. -/
theorem clamped_rate (rate : Rate) : max (-64) (min rate.asF64 64) = rate.asF64 := by
  obtain ⟨hlo, hhi⟩ := abs_le.mp rate.abs_asF64_le
  rw [min_eq_left hhi, max_eq_right hlo]

/-- A refused sample has no effect. -/
theorem sample_of_not_accepts (h : ¬ tr.Accepts t s now) :
    ∃ e, tr.sample t s now = ((tr, t), .error e) := by
  unfold sample
  split_ifs with htracked htime
  · exact ⟨_, rfl⟩
  · exact ⟨_, rfl⟩
  · apply absurd _ h
    refine ⟨not_not.mp htracked, not_lt.mp (not_or.mp htime).1, fun p hp => ?_⟩
    have hlater := (not_or.mp htime).2
    rw [Option.mem_def.mp hp] at hlater
    simpa using hlater

theorem unhinted_of_no_hint (t : Timeline) (h : s.rateHint = none) : Unhinted t s := by
  intro hint hmem
  rw [h] at hmem
  cases hmem

theorem decideRate_of_unhinted (h : Unhinted t s) (tr : Tracker) (speed : ℚ) :
    tr.decideRate t s speed =
      if 1 / 50 < |speed - t.anchor.rate.asF64| then
        if 3 ≤ tr.candidateCount speed then
          match Rate.new (Rounding.round (speed * 10000)) 10000 with
          | .ok rate => ({ tr with candidate := none }, .ok (rate, true))
          | .error e => ({ tr with candidate := some (speed, tr.candidateCount speed) }, .error e)
        else ({ tr with candidate := some (speed, tr.candidateCount speed) },
          .ok (t.anchor.rate, false))
      else ({ tr with candidate := none }, .ok (t.anchor.rate, false)) := by
  have hnone : s.rateHint.filter (fun hint => hint ≠ t.anchor.rate) = none := by
    apply Option.filter_eq_none_iff.mpr
    intro hint hmem
    simpa using h hint hmem
  unfold decideRate
  rw [hnone]
  rfl

/-- The tracker's checks in the form in which it makes them. -/
theorem Accepts.checks (h : tr.Accepts t s now) :
    ¬ t.sourceKind ≠ .tracked ∧
      ¬ (now < s.timestampNs ∨ tr.last.any (fun p => s.timestampNs ≤ p.timestampNs)) := by
  obtain ⟨htracked, hpast, hlater⟩ := h
  refine ⟨not_not.mpr htracked, not_or.mpr ⟨not_lt.mpr hpast, ?_⟩⟩
  cases hlast : tr.last with
  | none => simp
  | some p => simpa using hlater p hlast

/-- Counting a jump, and clearing the count, keeps the candidate speed. -/
theorem candidateCount_countJumps (tr : Tracker) (error : ℚ) (jumps : Nat) (speed : ℚ) :
    ({ tr.countJumps error with jumps := jumps } : Tracker).candidateCount speed =
      tr.candidateCount speed := by
  unfold candidateCount
  rw [countJumps_candidate]

theorem sample_of_introduces (haccepts : tr.Accepts t s now) (hunhinted : Unhinted t s)
    (h : tr.Introduces t s) :
    ∃ rate, tr.sample t s now =
      ((⟨some s, none, 0, 0⟩,
        { t with
          anchor := ⟨s.timestampNs, s.position, rate⟩
          sourceHealth := .healthy
          discontinuity := t.discontinuity + 1
          scheduled := [] }), .ok true) := by
  obtain ⟨rate, hrate⟩ := exists_rate (abs_speed_le tr t s)
  obtain ⟨htracked, htime⟩ := haccepts.checks
  unfold sample
  rw [if_neg htracked, if_neg htime]
  dsimp only
  rw [decideRate_of_unhinted hunhinted, candidateCount_countJumps, hrate]
  by_cases hspeed : 1 / 50 < |tr.speed t s - t.anchor.rate.asF64| ∧
      3 ≤ tr.candidateCount (tr.speed t s)
  · rw [if_pos hspeed.1, if_pos hspeed.2]
    dsimp only
    rw [if_pos (Bool.or_true _)]
    exact ⟨_, rfl⟩
  · have hchanged : (s.discontinuity || tr.last.isNone ||
        decide (3 ≤ (tr.countJumps (error t s)).jumps)) = true := by
      rcases h with hflag | hfirst | hjumps | hconfirmed
      · simp [hflag]
      · simp [hfirst]
      · simp [hjumps]
      · exact absurd hconfirmed hspeed
    rw [hchanged]
    by_cases hoff : 1 / 50 < |tr.speed t s - t.anchor.rate.asF64|
    · rw [if_pos hoff, if_neg (fun hcount => hspeed ⟨hoff, hcount⟩)]
      exact ⟨_, rfl⟩
    · rw [if_neg hoff]
      exact ⟨_, rfl⟩

/-- A new hint is taken over at once. -/
theorem sample_of_hinted (haccepts : tr.Accepts t s now) {hint : Rate} (hhint : hint ∈ s.rateHint)
    (hnew : hint ≠ t.anchor.rate) :
    tr.sample t s now =
      ((⟨some s, none, 0, 0⟩,
        { t with
          anchor := ⟨s.timestampNs, s.position, hint⟩
          sourceHealth := .healthy
          discontinuity := t.discontinuity + 1
          scheduled := [] }), .ok true) := by
  obtain ⟨htracked, htime⟩ := haccepts.checks
  have hfilter : s.rateHint.filter (fun hint => hint ≠ t.anchor.rate) = some hint :=
    Option.filter_eq_some_iff.mpr ⟨hhint, by simpa using hnew⟩
  unfold sample decideRate
  rw [if_neg htracked, if_neg htime, hfilter]
  dsimp only
  rw [if_pos (Bool.or_true _)]

theorem sample_of_not_introduces (haccepts : tr.Accepts t s now) (hunhinted : Unhinted t s)
    (h : ¬ tr.Introduces t s) :
    tr.sample t s now =
      (({ tr.countJumps (error t s) with
          candidate :=
            if 1 / 50 < |tr.speed t s - t.anchor.rate.asF64| then
              some (tr.speed t s, tr.candidateCount (tr.speed t s))
            else none
          last := some s },
        { t with
          anchor := ⟨s.timestampNs, refinedPosition t s, t.anchor.rate⟩
          sourceHealth := .healthy }), .ok false) := by
  obtain ⟨htracked, htime⟩ := haccepts.checks
  simp only [Introduces, not_or, Bool.not_eq_true] at h
  obtain ⟨hflag, hlater, hjumps, hspeed⟩ := h
  have hchanged : (s.discontinuity || tr.last.isNone ||
      decide (3 ≤ (tr.countJumps (error t s)).jumps)) = false := by
    simpa [hflag, hjumps] using Option.isSome_iff_ne_none.mpr hlater
  unfold sample
  rw [if_neg htracked, if_neg htime]
  dsimp only
  rw [decideRate_of_unhinted hunhinted, candidateCount_countJumps, hchanged, if_neg hjumps]
  split_ifs with hoff hcount
  · exact absurd ⟨hoff, hcount⟩ hspeed
  · rfl
  · rfl

end Tracker

end Tidkod
