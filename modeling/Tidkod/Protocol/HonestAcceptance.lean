import Mathlib.Tactic
import Mathlib.Data.Real.Basic
import Tidkod.Protocol.ClockUncertainty

/-!
Honest exchanges are never taken for clock steps. The fitted line stays within
the aged uncertainty of the leader's clock up to a fixed excess, the clock's
motion during exchanges of the longest admitted duration. A new sample is itself
off by half its delay and the same motion, so the two together stay far below
the 5 ms of slack in the outlier test. The bound belongs to the mapping alone,
so neither holdover nor quarantine nor expiry of the history touches it.
-/

namespace Tidkod

open BoundedRate

/-- What the uncertainty does not pay for: 500 ppm of half the longest admitted
exchange beyond the floor of 100 µs, one nanosecond of timestamp truncation and
the truncation of the reference time. -/
def uncoveredNs : ℚ := 25002

/-- From `start` on the line is within the uncertainty of the true offset, up to
the excess. The uncertainty may be taken at any later time. -/
def ClockMapping.Follows (leader : ℝ → ℝ) (m : ClockMapping) (start : ℚ) : Prop :=
  ∀ (x : ℝ) (t : Nat), (start : ℝ) ≤ x → x ≤ t →
    ∀ u : ℚ, m.uncertaintyAt t = (u : WithTop ℚ) →
      |m.line x - trueOffset leader x| ≤ (u : ℝ) + (uncoveredNs : ℝ)

theorem ClockMapping.Follows.later {leader : ℝ → ℝ} {m : ClockMapping} {start later : ℚ}
    (h : m.Follows leader start) (hle : start ≤ later) : m.Follows leader later := by
  intro x t hx
  have hstart : (start : ℝ) ≤ later := by exact_mod_cast hle
  exact h x t (hstart.trans hx)

/-- The uncertainty does not shrink below its value at the receipt time. -/
theorem ClockEstimator.fit_uncertaintyAt_max (samples : List Sample) (e : Exchange)
    (previous : ℚ) (count t : Nat) :
    (fit samples e previous count).uncertaintyAt t =
      (fit samples e previous count).uncertaintyAt (max t e.t4) := by
  have hage : max t e.t4 - e.t4 = t - e.t4 := by omega
  have hreceipt : (fit samples e previous count).lastSampleNs = e.t4 := rfl
  rw [ClockMapping.uncertaintyAt, ClockMapping.uncertaintyAt, hreceipt, hage]

/-- What a history of honest exchanges leaves in the estimator. -/
structure ClockEstimator.Honest (leader : ℝ → ℝ) (c : ClockEstimator) : Prop where
  sound : c.Retains (Sample.Sound leader)
  admitted : c.Retains (fun s => s.duration ≤ maxExchangeNs)
  past : c.Past
  drift : |c.mapping.drift| ≤ maxDrift
  follows : c.mapping = ClockMapping.default ∨
    ∃ last ∈ c.lastObserved, c.mapping.Follows leader last

theorem honest_default (leader : ℝ → ℝ) : ClockEstimator.default.Honest leader where
  sound := ClockEstimator.retains_default _
  admitted := ClockEstimator.retains_default _
  past := ClockEstimator.retains_default _
  drift := by norm_num [ClockEstimator.default, ClockMapping.default, maxDrift]
  follows := Or.inl rfl

/-- A fit of sound samples follows the clock from its newest midpoint on. -/
theorem ClockEstimator.fit_follows {leader : ℝ → ℝ} (hleader : LeaderClock leader)
    {samples : List Sample} (hne : samples ≠ []) (hsound : ∀ s ∈ samples, s.Sound leader)
    (hduration : ∀ s ∈ samples, s.duration ≤ maxExchangeNs) {e : Exchange}
    (hadmissible : e.admissible = true) (hpast : ∀ s ∈ samples, s.localNs ≤ e.midpoint)
    {previous : ℚ} (hprevious : |previous| ≤ maxDrift) (count : Nat) :
    (fit samples e previous count).Follows leader e.midpoint := by
  intro x t hx ht u hu
  obtain ⟨h14, -, -, h4, -⟩ := Exchange.le_of_admissible hadmissible
  obtain ⟨drift, hdrift⟩ :
      ∃ drift, fitDrift (selectSamples samples) e.midpoint previous = drift := ⟨_, rfl⟩
  have hbound : |drift| ≤ maxDrift := hdrift ▸ abs_fitDrift_le _ _ hprevious
  obtain ⟨s, hs, huncertainty⟩ :=
    fit_uncertaintyAt hne e previous count hdrift (le_max_right t e.t4)
  have hmem : s ∈ samples := selectSamples_subset _ hs
  have hlocal : s.localNs ≤ e.midpoint := hpast s hmem
  have hvalue := huncertainty (hlocal.trans (e.midpoint_le h14))
  rw [← fit_uncertaintyAt_max, hu, WithTop.coe_inj] at hvalue
  have hresidual : |s.offset - (fitOffset (selectSamples samples) e.midpoint drift +
      drift * (s.localNs - e.midpoint))| ≤
        fitResidual (selectSamples samples) e.midpoint
          (fitOffset (selectSamples samples) e.midpoint drift) drift :=
    (le_foldl_max _ 0).2 _ (List.mem_map_of_mem hs)
  have hlocalx : (s.localNs : ℝ) ≤ x := by
    have hcast : (s.localNs : ℝ) ≤ e.midpoint := by exact_mod_cast hlocal
    exact hcast.trans hx
  have hline := (hsound s hmem).fit_error hleader hbound hresidual hlocalx
  have hreference := fit_line samples previous count h14 h4 hdrift hbound x
  have hshort : (s.duration : ℝ) ≤ maxExchangeNs := by exact_mod_cast hduration s hmem
  -- The uncertainty has aged up to `t` or beyond, the line only up to `x`.
  have hage : (holdoverGrowth : ℝ) * (x - s.localNs) ≤
      (holdoverGrowth : ℝ) * ((max t e.t4 : Nat) - s.localNs) := by
    have hlater : (t : ℝ) ≤ (max t e.t4 : Nat) := by exact_mod_cast le_max_left t e.t4
    have hgrowth : (0 : ℝ) ≤ (holdoverGrowth : ℝ) := by norm_num [holdoverGrowth]
    exact mul_le_mul_of_nonneg_left (by linarith) hgrowth
  have hmotion : (maxDrift : ℝ) * ((s.duration : ℝ) / 2) + 1 + (maxDrift : ℝ) / 2 ≤
      (timestampAllowance : ℝ) + uncoveredNs := by
    norm_num [maxDrift, timestampAllowance, maxExchangeNs, uncoveredNs] at hshort ⊢
    linarith
  subst hvalue
  push_cast at hage ⊢
  rw [abs_le] at hline hreference ⊢
  constructor <;> linarith [hline.1, hline.2, hreference.1, hreference.2]

theorem ClockEstimator.Honest.feed {leader : ℝ → ℝ} (hleader : LeaderClock leader)
    {c : ClockEstimator} (h : c.Honest leader) {a : Arrival}
    (hhonest : a.exchange.Honest leader) : (c.feed a).1.Honest leader := by
  have hsound : (c.feed a).1.Retains (Sample.Sound leader) :=
    h.sound.observeInner (fun hok => hhonest.sample_sound hleader hok)
  have hadmitted : (c.feed a).1.Retains (fun s => s.duration ≤ maxExchangeNs) := by
    apply h.admitted.observeInner
    intro hok
    obtain ⟨-, -, -, -, hduration⟩ := Exchange.le_of_admissible hok
    simp only [Exchange.sample, Exchange.duration]
    exact_mod_cast hduration
  have hpast : (c.feed a).1.Past := h.past.observeInner a.exchange
  refine ⟨hsound, hadmitted, hpast, abs_drift_observeInner h.drift a.exchange, ?_⟩
  by_cases haccepted : (c.observeInner a.exchange).2 = true
  · obtain ⟨hok, hmem, hlast, count, hmapping⟩ := observeInner_fit_of_accepted haccepted
    refine Or.inr ⟨a.exchange.midpoint, hlast, ?_⟩
    have hbefore : ∀ s ∈ (c.observeInner a.exchange).1.samples,
        s.localNs ≤ a.exchange.midpoint := by
      intro s hs
      obtain ⟨last, hobserved, hle⟩ := hpast.1 s hs
      obtain rfl : a.exchange.midpoint = last :=
        Option.some.inj (hlast.symm.trans (Option.mem_def.mp hobserved))
      exact hle
    have hfollows := fit_follows hleader (List.ne_nil_of_mem hmem) hsound.1 hadmitted.1 hok
      hbefore h.drift count
    rw [← hmapping] at hfollows
    exact hfollows
  · have hmapping := observeInner_mapping_of_rejected (by simpa using haccepted)
    rcases h.follows with hdefault | ⟨last, hlast, hfollows⟩
    · exact Or.inl (hmapping.trans hdefault)
    · obtain ⟨next, hnext, hle⟩ := observeInner_lastObserved_of_some hlast
      refine Or.inr ⟨next, hnext, ?_⟩
      have hlater := hfollows.later hle
      rw [← hmapping] at hlater
      exact hlater

theorem honest_run {leader : ℝ → ℝ} (hleader : LeaderClock leader) {history : List Arrival}
    (hhonest : ∀ a ∈ history, a.exchange.Honest leader) {c : ClockEstimator}
    (hc : c.Honest leader) : (Machine.run ClockEstimator.feed c history).Honest leader := by
  induction history generalizing c with
  | nil => exact hc
  | cons a rest ih =>
      exact ih (fun b hb => hhonest b (List.mem_cons_of_mem a hb))
        (hc.feed hleader (hhonest a List.mem_cons_self))

/-- The offset of a sound sample against the line at the truncated midpoint. -/
theorem ClockMapping.Follows.sample_error {leader : ℝ → ℝ} {m : ClockMapping} {last : ℚ}
    (h : m.Follows leader last) (hdrift : |m.drift| ≤ maxDrift) {e : Exchange}
    (hadmissible : e.admissible = true) (hsound : e.sample.Sound leader)
    (hnew : last < e.midpoint) {u : ℚ} (hu : m.uncertaintyAt e.t4 = (u : WithTop ℚ)) :
    |e.offset - m.offsetAt (asU64 e.midpoint)| ≤ u + (e.delay / 2 + 5000000) := by
  obtain ⟨h14, -, -, h4, hduration⟩ := Exchange.le_of_admissible hadmissible
  have hmid : (e.midpoint : ℝ) ≤ e.t4 := by exact_mod_cast e.midpoint_le h14
  have hstart : (last : ℝ) ≤ e.midpoint := by exact_mod_cast hnew.le
  have hline := h e.midpoint e.t4 hstart hmid u hu
  have hsample := hsound e.midpoint
  simp only [Exchange.sample, Exchange.duration, sub_self, abs_zero, zero_add] at hsample
  have hshort : ((e.t4 - e.t1 : Nat) : ℝ) ≤ 500000000 := by
    have hlimit : e.t4 - e.t1 ≤ 500000000 := hduration
    exact_mod_cast hlimit
  -- The test reads the line at the midpoint rounded down.
  obtain ⟨hlo, hhi⟩ := Exchange.midpoint_sub_reference h14 h4
  have hlo' : (0 : ℝ) ≤ (e.midpoint : ℝ) - asU64 e.midpoint := by exact_mod_cast hlo
  have hhi' : (e.midpoint : ℝ) - asU64 e.midpoint ≤ 1 := by
    have hone : e.midpoint - asU64 e.midpoint ≤ 1 := hhi.trans (by norm_num)
    exact_mod_cast hone
  have hshift : m.line e.midpoint - (m.offsetAt (asU64 e.midpoint) : ℝ) =
      m.drift * ((e.midpoint : ℝ) - asU64 e.midpoint) := by
    rw [← m.line_natCast, ClockMapping.line, ClockMapping.line]
    ring
  have hdrift' : |(m.drift : ℝ)| ≤ maxDrift := by exact_mod_cast hdrift
  have htruncated : |m.line e.midpoint - (m.offsetAt (asU64 e.midpoint) : ℝ)| ≤ 1 := by
    rw [hshift, abs_mul, abs_of_nonneg hlo']
    have hsmall : (maxDrift : ℝ) ≤ 1 := by norm_num [maxDrift]
    exact mul_le_one₀ (hdrift'.trans hsmall) hlo' hhi'
  have hreal : |(e.offset : ℝ) - m.offsetAt (asU64 e.midpoint)| ≤
      (u : ℝ) + (((e.delay : ℚ) : ℝ) / 2 + 5000000) := by
    norm_num [maxDrift, uncoveredNs] at hline hsample
    push_cast
    rw [abs_le] at hline hsample htruncated ⊢
    constructor <;> linarith [hline.1, hline.2, hsample.1, hsample.2, htruncated.1, htruncated.2]
  exact_mod_cast hreal

namespace ClockEstimator

/-- The offset test is silent on an honest exchange with a new midpoint. -/
theorem Honest.rejectedOffset {leader : ℝ → ℝ} (hleader : LeaderClock leader)
    {c : ClockEstimator} (h : c.Honest leader) {e : Exchange} (hhonest : e.Honest leader)
    (hadmissible : e.admissible = true) (hnew : ∀ last ∈ c.lastObserved, last < e.midpoint) :
    (c.arrived e).rejectedOffset e = false := by
  have hmapping : (c.arrived e).mapping = c.mapping := rfl
  simp only [ClockEstimator.rejectedOffset, hmapping]
  rcases h.follows with hdefault | ⟨last, hlast, hfollows⟩
  · simp [hdefault, ClockMapping.default]
  · cases hu : c.mapping.uncertaintyAt e.t4 with
    | top => simp
    | coe u =>
        have hsound := hhonest.sample_sound hleader hadmissible
        have herror := hfollows.sample_error h.drift hadmissible hsound (hnew last hlast) hu
        have hwithin : ¬ (u : WithTop ℚ) + ((e.delay / 2 + 5000000 : ℚ) : WithTop ℚ) <
            ((|e.offset - c.mapping.offsetAt (asU64 e.midpoint)| : ℚ) : WithTop ℚ) := by
          rw [← WithTop.coe_add, WithTop.coe_lt_coe]
          exact herror.not_gt
        simp only [hwithin, decide_false, Bool.and_false]

/-- The delay test is silent on a delay within 20 ms of every retained one. -/
theorem rejectedDelay_eq_false {samples : List Sample} {s : Sample}
    (h : ∀ r ∈ samples, s.delay ≤ r.delay + 20000000) : rejectedDelay samples s = false := by
  by_cases hfew : 8 ≤ samples.length
  · have hne : samples.map Sample.delay ≠ [] := by
      intro hnil
      rw [List.map_eq_nil_iff.mp hnil] at hfew
      simp at hfew
    obtain ⟨x, hx, heq, -⟩ := foldMin_spec hne
    obtain ⟨r, hr, rfl⟩ := List.mem_map.mp hx
    have hwithin : ¬ foldMin (samples.map Sample.delay) + ((20000000 : ℚ) : WithTop ℚ) <
        ((s.delay : ℚ) : WithTop ℚ) := by
      rw [heq, ← WithTop.coe_add, WithTop.coe_lt_coe]
      exact (h r hr).not_gt
    simp only [rejectedDelay, hwithin, decide_false, Bool.and_false]
  · simp [rejectedDelay, hfew]

/-- An exchange that is no outlier is accepted. -/
theorem observeInner_of_inlier {c : ClockEstimator} {e : Exchange}
    (hadmissible : e.admissible = true) (hnew : ∀ last ∈ c.lastObserved, last < e.midpoint)
    (hdelay : rejectedDelay (c.arrived e).samples e.sample = false)
    (hoffset : (c.arrived e).rejectedOffset e = false) : (c.observeInner e).2 = true := by
  rw [observeInner_of_new hadmissible hnew, decideSample]
  simp only [hdelay, hoffset, Bool.or_false, Bool.false_eq_true, if_false]

end ClockEstimator

/-- In every state that honest exchanges can produce, the offset test is silent
on every further honest exchange with admissible timestamps and a new midpoint,
and such an exchange is accepted when its delay is within 20 ms of the least
retained one. -/
theorem honest_exchange_accepted {leader : ℝ → ℝ} (hleader : LeaderClock leader)
    (history : List Arrival) (a : Arrival)
    (hhonest : ∀ b ∈ history ++ [a], b.exchange.Honest leader)
    (hadmissible : a.exchange.admissible = true)
    (hnew : ∀ last ∈ (Machine.run ClockEstimator.feed ClockEstimator.default
      history).lastObserved, last < a.exchange.midpoint) :
    ((Machine.run ClockEstimator.feed ClockEstimator.default history).arrived
      a.exchange).rejectedOffset a.exchange = false ∧
    ((∀ s ∈ ((Machine.run ClockEstimator.feed ClockEstimator.default history).arrived
        a.exchange).samples, (a.exchange.delay : ℚ) ≤ s.delay + 20000000) →
      ((Machine.run ClockEstimator.feed ClockEstimator.default history).feed a).2 = true) := by
  have hstate := honest_run hleader
    (fun b hb => hhonest b (List.mem_append_left [a] hb)) (honest_default leader)
  have hoffset := hstate.rejectedOffset hleader (hhonest a (by simp)) hadmissible hnew
  refine ⟨hoffset, ?_⟩
  intro hdelay
  exact ClockEstimator.observeInner_of_inlier hadmissible hnew
    (ClockEstimator.rejectedDelay_eq_false hdelay) hoffset

/-- A leader that changes its rate by 1000 ppm just as the longest admitted
exchange with it begins. -/
theorem honest_exchange_accepted_of_turningLeader :
    ((Machine.run ClockEstimator.feed ClockEstimator.default turningHistory).arrived
      longArrival.exchange).rejectedOffset longArrival.exchange = false ∧
    ((Machine.run ClockEstimator.feed ClockEstimator.default turningHistory).feed
      longArrival).2 = true := by
  have haccepted := honest_exchange_accepted turningLeader_clock turningHistory longArrival
    turningHistory_honest (by decide +kernel) (by decide +kernel)
  exact ⟨haccepted.1, haccepted.2 (by decide +kernel)⟩

end Tidkod
