import Mathlib.Tactic
import Mathlib.Data.Real.Basic
import Tidkod.Lib.BoundedRate
import Tidkod.Protocol.ClockSteps

/-!
Soundness of the offset evidence against a leader clock of bounded relative
rate. The leader is any real function of local time; the estimator works on
rationals. Every retained sample carries a constraint on the true offset at
all times, whatever has happened to the samples around it, and the evidence is
the intersection of those constraints at the receipt time.
-/

namespace Tidkod

open BoundedRate

/-- One exchange fed to an estimator, with its diagnostic timestamps. -/
structure Arrival where
  exchange : Exchange
  publicationNs : Option Nat
  processedNs : Nat

namespace ClockEstimator

/-- The estimator as a machine over the exchanges it is fed. -/
def feed (c : ClockEstimator) (a : Arrival) : ClockEstimator × Bool :=
  c.observeTimed a.exchange a.publicationNs a.processedNs

end ClockEstimator

/-- The leader's relative rate stays within ±500 ppm of local time. -/
def LeaderClock (leader : ℝ → ℝ) : Prop := Within (maxDrift : ℝ) leader

/-- The leader's clock minus local time. -/
noncomputable abbrev trueOffset (leader : ℝ → ℝ) (x : ℝ) : ℝ := BoundedRate.offset leader x

/-- The exchange was really made with this leader: the request arrived no
earlier than it was sent, the reply left after it and arrived no later than
`t4`, and `t2`, `t3` are the leader's clock, exact or floored. -/
def Exchange.Honest (leader : ℝ → ℝ) (e : Exchange) : Prop :=
  TwoWay (1 : ℝ) leader e.t1 e.t2 e.t3 e.t4

/-- The true offset lies in the interval. -/
def OffsetEvidence.Contains (ev : OffsetEvidence) (offset : ℝ) : Prop :=
  (ev.lowerNs : ℝ) ≤ offset ∧ offset ≤ (ev.upperNs : ℝ)

/-- What an honest sample says about the true offset at any instant. -/
def Sample.Sound (leader : ℝ → ℝ) (s : Sample) : Prop :=
  ∀ y : ℝ, |trueOffset leader y - (s.offset : ℝ)| ≤
    (s.delay : ℝ) / 2 +
      (maxDrift : ℝ) * (|y - (s.localNs : ℝ)| + (s.duration : ℝ) / 2) + 1

theorem maxDrift_nonneg : (0 : ℝ) ≤ (maxDrift : ℝ) := by
  norm_num [maxDrift]

theorem Exchange.Honest.sample_sound {leader : ℝ → ℝ} (hleader : LeaderClock leader)
    {e : Exchange} (hadmissible : e.admissible = true) (h : e.Honest leader) :
    e.sample.Sound leader := by
  intro y
  obtain ⟨h14, h23, -⟩ := Exchange.le_of_admissible hadmissible
  have hbound := h.offset_bound maxDrift_nonneg hleader y
  have hoffset : (e.offset : ℝ) = (((e.t2 : ℝ) - e.t1) + (e.t3 - e.t4)) / 2 := by
    simp [Exchange.offset]
  have hdelay : ((e.delay : ℚ) : ℝ) = ((e.t4 : ℝ) - e.t1) - (e.t3 - e.t2) := by
    simp [Exchange.delay, Nat.cast_sub h14, Nat.cast_sub h23]
  have hlocal : (e.midpoint : ℝ) = ((e.t1 : ℝ) + e.t4) / 2 := by
    rw [Exchange.midpoint_eq h14]
    push_cast
    ring
  have hduration : ((e.duration : ℚ) : ℝ) = (e.t4 : ℝ) - e.t1 := by
    simp [Exchange.duration, Nat.cast_sub h14]
  simp only [Exchange.sample]
  rw [hoffset, hdelay, hlocal, hduration]
  exact hbound

/-- Every sample an estimator retains is sound when all exchanges are honest. -/
theorem retains_sound {leader : ℝ → ℝ} (hleader : LeaderClock leader)
    {history : List Arrival} (hhonest : ∀ a ∈ history, a.exchange.Honest leader)
    {c : ClockEstimator} (hc : c.Retains (Sample.Sound leader)) :
    (Machine.run ClockEstimator.feed c history).Retains (Sample.Sound leader) := by
  induction history generalizing c with
  | nil => exact hc
  | cons a rest ih =>
      apply ih (fun b hb => hhonest b (List.mem_cons_of_mem a hb))
      exact hc.observeInner (fun hok =>
        (hhonest a List.mem_cons_self).sample_sound hleader hok)

/-- At the receipt time a sound sample's radius covers the true offset: the
timestamp allowance exceeds the one-nanosecond grain of the readings. -/
theorem Sample.Sound.within_radius {leader : ℝ → ℝ} {s : Sample} (h : s.Sound leader)
    (t4 : Nat) :
    |trueOffset leader t4 - (s.offset : ℝ)| ≤ (ClockEstimator.evidenceRadius t4 s : ℝ) := by
  have hbound := h t4
  have hallow : (1 : ℝ) ≤ (timestampAllowance : ℝ) := by
    norm_num [timestampAllowance]
  have hradius : (ClockEstimator.evidenceRadius t4 s : ℝ) =
      (s.delay : ℝ) / 2 +
        (maxDrift : ℝ) * (|(t4 : ℝ) - s.localNs| + (s.duration : ℝ) / 2) +
        (timestampAllowance : ℝ) := by
    simp [ClockEstimator.evidenceRadius]
  rw [hradius]
  linarith

/-- Intersecting sound constraints keeps the true offset inside. -/
theorem fit_evidence_contains {leader : ℝ → ℝ} {samples : List Sample} (hne : samples ≠ [])
    (hsound : ∀ s ∈ samples, s.Sound leader) (e : Exchange) (drift : ℚ) (count : Nat) :
    ∃ ev, (ClockEstimator.fit samples e drift count).evidence = some ev ∧
      ev.referenceNs = e.t4 ∧ ev.Contains (trueOffset leader e.t4) := by
  refine ⟨_, rfl, rfl, ?_, ?_⟩
  · have hlower : samples.map (fun s => s.offset - ClockEstimator.evidenceRadius e.t4 s) ≠ [] := by
      simpa using hne
    obtain ⟨x, hx, heq, -⟩ := foldMax_spec hlower
    obtain ⟨s, hs, rfl⟩ := List.mem_map.mp hx
    have hbound := (abs_le.mp ((hsound s hs).within_radius e.t4)).1
    simp only [heq, WithBot.unbotD_coe]
    push_cast
    linarith
  · have hupper : samples.map (fun s => s.offset + ClockEstimator.evidenceRadius e.t4 s) ≠ [] := by
      simpa using hne
    obtain ⟨x, hx, heq, -⟩ := foldMin_spec hupper
    obtain ⟨s, hs, rfl⟩ := List.mem_map.mp hx
    have hbound := (abs_le.mp ((hsound s hs).within_radius e.t4)).2
    simp only [heq, WithTop.untopD_coe]
    push_cast
    linarith

theorem OffsetEvidence.Contains.consistent {ev : OffsetEvidence} {θ : ℝ} (h : ev.Contains θ) :
    ev.consistent = true := by
  have hle : (ev.lowerNs : ℝ) ≤ ev.upperNs := h.1.trans h.2
  simp only [OffsetEvidence.consistent, decide_eq_true_eq]
  exact_mod_cast hle

/-- Widening by 500 ppm of the elapsed time follows the true offset. -/
theorem OffsetEvidence.Contains.at {leader : ℝ → ℝ} (hleader : LeaderClock leader)
    {ev : OffsetEvidence} (h : ev.Contains (trueOffset leader ev.referenceNs)) (x : Nat) :
    (ev.at x).Contains (trueOffset leader x) := by
  have hmove := abs_le.mp (hleader x ev.referenceNs)
  have hgrowth : ((|(x : ℚ) - ev.referenceNs| * maxDrift : ℚ) : ℝ) =
      (maxDrift : ℝ) * |(x : ℝ) - ev.referenceNs| := by
    push_cast
    ring
  rw [OffsetEvidence.at, if_pos h.consistent]
  simp only [OffsetEvidence.Contains] at h ⊢
  constructor
  · rw [Rat.cast_sub, hgrowth]
    linarith [h.1, hmove.1]
  · rw [Rat.cast_add, hgrowth]
    linarith [h.2, hmove.2]

/-- After every accepted exchange of an honest history the evidence is
consistent, contains the true offset at its reference time, and contains the
true offset at every other local time once propagated there. -/
theorem evidence_sound {leader : ℝ → ℝ} (hleader : LeaderClock leader)
    (history : List Arrival) (a : Arrival)
    (hhonest : ∀ b ∈ history ++ [a], b.exchange.Honest leader)
    (haccepted : ((Machine.run ClockEstimator.feed ClockEstimator.default history).feed a).2 =
      true) :
    ∃ ev,
      ((Machine.run ClockEstimator.feed ClockEstimator.default history).feed a).1.mapping.evidence =
        some ev ∧
      ev.consistent = true ∧ ev.Contains (trueOffset leader ev.referenceNs) ∧
      ∀ x : Nat, (ev.at x).Contains (trueOffset leader x) := by
  have hsound := retains_sound hleader hhonest
    (ClockEstimator.retains_default (Sample.Sound leader))
  rw [Machine.run_append] at hsound
  simp only [Machine.run_cons, Machine.run_nil] at hsound
  obtain ⟨-, hmem, -, count, hmapping⟩ := ClockEstimator.observeInner_fit_of_accepted haccepted
  obtain ⟨ev, hev, href, hcontains⟩ := fit_evidence_contains
    (List.ne_nil_of_mem hmem) hsound.1 a.exchange _ count
  rw [← href] at hcontains
  refine ⟨ev, ?_, hcontains.consistent, hcontains, fun x => hcontains.at hleader x⟩
  exact (congrArg ClockMapping.evidence hmapping).trans hev

/-- A leader ahead of local time at the same speed. -/
theorem leaderClock_add (ahead : ℝ) : LeaderClock (fun x : ℝ => x + ahead) := by
  intro x y
  have hzero :
      trueOffset (fun x : ℝ => x + ahead) x - trueOffset (fun x : ℝ => x + ahead) y = 0 := by
    simp [trueOffset, offset]
  rw [hzero, abs_zero]
  exact mul_nonneg maxDrift_nonneg (abs_nonneg _)

/-- A leader five seconds ahead and one exchange with a path asymmetry of 7 ms. -/
theorem evidence_sound_of_offset_leader :
    ∃ ev,
      ((Machine.run ClockEstimator.feed ClockEstimator.default []).feed
        ⟨⟨1000000000, 6001000000, 6001020000, 1009020000⟩, none, 1009020000⟩).1.mapping.evidence =
        some ev ∧
      ev.consistent = true ∧
      ev.Contains (trueOffset (fun x : ℝ => x + 5000000000) ev.referenceNs) ∧
      ∀ x : Nat, (ev.at x).Contains (trueOffset (fun x : ℝ => x + 5000000000) x) := by
  refine evidence_sound (leaderClock_add 5000000000) [] _ ?_ (by decide +kernel)
  · intro b hb
    obtain rfl : b = _ := by simpa using hb
    exact ⟨1001000000, 1001020000, by norm_num, by norm_num, by norm_num,
      by constructor <;> norm_num, by constructor <;> norm_num⟩

end Tidkod
