import Mathlib.Tactic
import Mathlib.Data.Real.Basic
import Tidkod.Protocol.ClockEvidence

/-!
How far `leader_time` can be from the leader's clock. The uncertainty of a
mapping is the tightest aged half-delay of the fitted samples, plus the largest
residual, a fixed floor and 1000 ppm of growth. That growth pays for the
mismatch between a fitted drift and the leader's rate from the sample's
midpoint on; the motion of the clock during the exchange itself, 500 ppm of
half its duration, has to fit into the floor of 100 µs. It does up to a total
duration just below 400 ms. Exchanges are admitted up to 500 ms, and there the
bound can fail.
-/

namespace Tidkod

open BoundedRate

/-- The longest exchange whose internal clock motion, with one nanosecond of
timestamp truncation and the truncation of the reference time, fits into the
100 µs floor. -/
def coveredExchangeNs : Nat := 399995999

namespace ClockEstimator

/-- Every retained sample is older than the last observed midpoint. -/
def Past (c : ClockEstimator) : Prop :=
  c.Retains (fun s => ∃ last ∈ c.lastObserved, s.localNs ≤ last)

theorem Past.observeInner {c : ClockEstimator} (h : c.Past) (e : Exchange) :
    (c.observeInner e).1.Past := by
  have hretained : (c.observeInner e).1.Retains
      (fun s => (∃ last ∈ c.lastObserved, s.localNs ≤ last) ∨ s.localNs = e.midpoint) :=
    Retains.observeInner ⟨fun s hs => Or.inl (h.1 s hs), fun s hs => Or.inl (h.2 s hs)⟩
      (fun _ => Or.inr rfl)
  -- An observation that is not ignored makes its midpoint the last observed one.
  have hadvance (hnew : ∀ last ∈ c.lastObserved, last < e.midpoint) (s : Sample)
      (hs : (∃ last ∈ c.lastObserved, s.localNs ≤ last) ∨ s.localNs = e.midpoint) :
      ∃ last ∈ (some e.midpoint : Option ℚ), s.localNs ≤ last := by
    refine ⟨e.midpoint, rfl, ?_⟩
    rcases hs with ⟨last, hlast, hle⟩ | heq
    · exact hle.trans (hnew last hlast).le
    · exact heq.le
  have houtcome := observeInner_outcome c e
  generalize c.observeInner e = result at houtcome hretained ⊢
  cases houtcome with
  | ignored => exact h
  | quarantined _ hnew =>
      exact ⟨fun s hs => hadvance hnew s (hretained.1 s hs),
        fun s hs => hadvance hnew s (hretained.2 s hs)⟩
  | promoted _ hnew =>
      exact ⟨fun s hs => hadvance hnew s (hretained.1 s hs),
        fun s hs => hadvance hnew s (hretained.2 s hs)⟩
  | accepted _ hnew =>
      exact ⟨fun s hs => hadvance hnew s (hretained.1 s hs),
        fun s hs => hadvance hnew s (hretained.2 s hs)⟩

end ClockEstimator

/-- What a history of honest, short enough exchanges leaves in the estimator. -/
structure ClockEstimator.Tracks (leader : ℝ → ℝ) (c : ClockEstimator) : Prop where
  sound : c.Retains (Sample.Sound leader)
  short : c.Retains (fun s => s.duration ≤ coveredExchangeNs)
  past : c.Past
  drift : |c.mapping.drift| ≤ maxDrift

theorem tracks_default (leader : ℝ → ℝ) : ClockEstimator.default.Tracks leader where
  sound := ClockEstimator.retains_default _
  short := ClockEstimator.retains_default _
  past := ClockEstimator.retains_default _
  drift := by norm_num [ClockEstimator.default, ClockMapping.default, maxDrift]

theorem ClockEstimator.Tracks.feed {leader : ℝ → ℝ} (hleader : LeaderClock leader)
    {c : ClockEstimator} (h : c.Tracks leader) {a : Arrival}
    (hhonest : a.exchange.Honest leader)
    (hshort : a.exchange.admissible = true → a.exchange.duration ≤ coveredExchangeNs) :
    (c.feed a).1.Tracks leader where
  sound := h.sound.observeInner (fun hok => hhonest.sample_sound hleader hok)
  short := h.short.observeInner (fun hok => by
    simp only [Exchange.sample]
    exact_mod_cast hshort hok)
  past := h.past.observeInner a.exchange
  drift := ClockEstimator.abs_drift_observeInner h.drift a.exchange

theorem tracks_run {leader : ℝ → ℝ} (hleader : LeaderClock leader) {history : List Arrival}
    (hhonest : ∀ a ∈ history, a.exchange.Honest leader)
    (hshort : ∀ a ∈ history,
      a.exchange.admissible = true → a.exchange.duration ≤ coveredExchangeNs)
    {c : ClockEstimator} (hc : c.Tracks leader) :
    (Machine.run ClockEstimator.feed c history).Tracks leader := by
  induction history generalizing c with
  | nil => exact hc
  | cons a rest ih =>
      exact ih (fun b hb => hhonest b (List.mem_cons_of_mem a hb))
        (fun b hb => hshort b (List.mem_cons_of_mem a hb))
        (hc.feed hleader (hhonest a List.mem_cons_self) (hshort a List.mem_cons_self))

/-- The line through the fit, extrapolated from a fitted sample: residual,
half delay and motion during the exchange at the sample, then the mismatch of
the rates. -/
theorem Sample.Sound.fit_error {leader : ℝ → ℝ} (hleader : LeaderClock leader) {s : Sample}
    (hsound : s.Sound leader) {offset drift midpoint residual : ℚ} (hdrift : |drift| ≤ maxDrift)
    (hresidual : |s.offset - (offset + drift * (s.localNs - midpoint))| ≤ residual)
    {x : ℝ} (hx : (s.localNs : ℝ) ≤ x) :
    |(offset : ℝ) + drift * (x - midpoint) - trueOffset leader x| ≤
      (s.delay : ℝ) / 2 + residual + (maxDrift : ℝ) * ((s.duration : ℝ) / 2) + 1 +
        (holdoverGrowth : ℝ) * (x - s.localNs) := by
  have hline := hleader.line_bound ((offset : ℝ) + drift * (s.localNs - midpoint)) (drift : ℝ)
    s.localNs x
  have hextend : (offset : ℝ) + drift * (s.localNs - midpoint) + drift * (x - s.localNs) =
      offset + drift * (x - midpoint) := by
    ring
  rw [hextend, abs_of_nonneg (sub_nonneg.mpr hx)] at hline
  have hsample := hsound s.localNs
  rw [sub_self, abs_zero, zero_add] at hsample
  have hresidual' : |(s.offset : ℝ) - (offset + drift * (s.localNs - midpoint))| ≤ residual := by
    exact_mod_cast hresidual
  have hdrift' : |(drift : ℝ)| ≤ maxDrift := by exact_mod_cast hdrift
  have hat : |(offset : ℝ) + drift * (s.localNs - midpoint) - BoundedRate.offset leader s.localNs| ≤
      residual + ((s.delay : ℝ) / 2 + maxDrift * ((s.duration : ℝ) / 2) + 1) := by
    rw [abs_le] at hresidual' hsample ⊢
    constructor <;> linarith [hresidual'.1, hresidual'.2, hsample.1, hsample.2]
  have hrates : (|(drift : ℝ)| + maxDrift) * (x - s.localNs) ≤
      (holdoverGrowth : ℝ) * (x - s.localNs) := by
    refine mul_le_mul_of_nonneg_right ?_ (sub_nonneg.mpr hx)
    have hgrowth : (holdoverGrowth : ℝ) = maxDrift + maxDrift := by
      norm_num [holdoverGrowth, maxDrift]
    rw [hgrowth]
    linarith
  linarith

/-- Rounding the leader time to the supported range and to whole nanoseconds
costs at most one nanosecond when the true leader time is in range. -/
theorem ClockMapping.leaderTime_error (m : ClockMapping) (x : Nat) {true_ bound : ℝ}
    (hnonneg : 0 ≤ true_) (hmax : true_ ≤ i64Max)
    (h : |(x : ℝ) + m.offsetAt x - true_| ≤ bound) :
    |(m.leaderTime x : ℝ) - true_| ≤ bound + 1 := by
  have hrange : (0 : ℚ) ≤ max 0 (min (x + m.offsetAt x) i64Max) := le_max_left _ _
  have hle : max 0 (min ((x : ℚ) + m.offsetAt x) i64Max) ≤ (u64Max : ℚ) := by
    refine max_le (by norm_num [u64Max]) ((min_le_right _ _).trans ?_)
    norm_num [u64Max, i64Max]
  obtain ⟨hlo, hhi⟩ := Rounding.toUnsigned_bounds hrange hle
  have hlo' : (m.leaderTime x : ℝ) ≤ max 0 (min ((x : ℝ) + m.offsetAt x) i64Max) := by
    exact_mod_cast hlo
  have hhi' : max 0 (min ((x : ℝ) + m.offsetAt x) i64Max) < (m.leaderTime x : ℝ) + 1 := by
    exact_mod_cast hhi
  obtain ⟨hbelow, habove⟩ := abs_le.mp h
  have hclampLo : true_ - bound ≤ max 0 (min ((x : ℝ) + m.offsetAt x) i64Max) := by
    have hbound : 0 ≤ bound := (abs_nonneg _).trans h
    exact le_max_of_le_right (le_min (by linarith) (by linarith))
  have hclampHi : max 0 (min ((x : ℝ) + m.offsetAt x) i64Max) ≤ true_ + bound := by
    have hbound : 0 ≤ bound := (abs_nonneg _).trans h
    exact max_le (by linarith) ((min_le_left _ _).trans (by linarith))
  rw [abs_le]
  constructor <;> linarith

/-- The reference time loses at most half a nanosecond: midpoints are multiples
of one half. -/
theorem Exchange.midpoint_sub_reference {e : Exchange} (h : e.t1 ≤ e.t4) (h4 : e.t4 ≤ i64Max) :
    0 ≤ e.midpoint - asU64 e.midpoint ∧ e.midpoint - asU64 e.midpoint ≤ 1 / 2 := by
  have hle : e.midpoint ≤ (u64Max : ℚ) := by
    apply (e.midpoint_le h).trans
    have : e.t4 ≤ u64Max := h4.trans (by decide)
    exact_mod_cast this
  obtain ⟨hlo, hhi⟩ := Rounding.toUnsigned_bounds e.midpoint_nonneg hle
  change (asU64 e.midpoint : ℚ) ≤ e.midpoint at hlo
  change e.midpoint < (asU64 e.midpoint : ℚ) + 1 at hhi
  refine ⟨by linarith, ?_⟩
  rw [Exchange.midpoint_eq h] at hhi ⊢
  generalize asU64 (((e.t1 : ℚ) + e.t4) / 2) = reference at hhi ⊢
  have hdouble : (e.t1 : ℚ) + e.t4 < 2 * reference + 2 := by linarith
  have hint : e.t1 + e.t4 < 2 * reference + 2 := by exact_mod_cast hdouble
  have hint' : e.t1 + e.t4 ≤ 2 * reference + 1 := by omega
  have hback : (e.t1 : ℚ) + e.t4 ≤ 2 * reference + 1 := by exact_mod_cast hint'
  linarith

/-- The affine map of a mapping at any instant, without rounding. -/
noncomputable def ClockMapping.line (m : ClockMapping) (x : ℝ) : ℝ :=
  m.offsetNs + (x - m.referenceNs) * m.drift

theorem ClockMapping.line_natCast (m : ClockMapping) (x : Nat) :
    m.line x = (m.offsetAt x : ℝ) := by
  simp [line, offsetAt]

/-- Measuring from the truncated reference shifts the line by the drift over the
truncated part. -/
theorem ClockEstimator.fit_line (samples : List Sample) {e : Exchange} (previous : ℚ)
    (count : Nat) (h : e.t1 ≤ e.t4) (h4 : e.t4 ≤ i64Max) {drift : ℚ}
    (hdrift : fitDrift (selectSamples samples) e.midpoint previous = drift)
    (hbound : |drift| ≤ maxDrift) (x : ℝ) :
    |(fit samples e previous count).line x -
      ((fitOffset (selectSamples samples) e.midpoint drift : ℝ) +
        drift * (x - (e.midpoint : ℝ)))| ≤ (maxDrift : ℝ) / 2 := by
  obtain ⟨hlo, hhi⟩ := Exchange.midpoint_sub_reference h h4
  have hlo' : (0 : ℝ) ≤ (e.midpoint : ℝ) - asU64 e.midpoint := by exact_mod_cast hlo
  have hhi' : (e.midpoint : ℝ) - asU64 e.midpoint ≤ 1 / 2 := by
    have hcast : ((e.midpoint - asU64 e.midpoint : ℚ) : ℝ) ≤ ((1 / 2 : ℚ) : ℝ) := by
      exact_mod_cast hhi
    push_cast at hcast
    exact hcast
  have hsplit : (fit samples e previous count).line x -
      ((fitOffset (selectSamples samples) e.midpoint drift : ℝ) +
        drift * (x - (e.midpoint : ℝ))) =
      drift * ((e.midpoint : ℝ) - asU64 e.midpoint) := by
    simp only [ClockMapping.line, fit, hdrift]
    ring
  have hbound' : |(drift : ℝ)| ≤ maxDrift := by exact_mod_cast hbound
  rw [hsplit, abs_mul, abs_of_nonneg hlo']
  calc
    |(drift : ℝ)| * ((e.midpoint : ℝ) - asU64 e.midpoint) ≤ maxDrift * (1 / 2) :=
      mul_le_mul hbound' hhi' hlo' maxDrift_nonneg
    _ = (maxDrift : ℝ) / 2 := by ring

/-- The uncertainty of a fit is set by one of the fitted samples. -/
theorem ClockEstimator.fit_uncertaintyAt {samples : List Sample} (hne : samples ≠ [])
    (e : Exchange) (previous : ℚ) (count : Nat) {drift : ℚ}
    (hdrift : fitDrift (selectSamples samples) e.midpoint previous = drift) {x : Nat}
    (hx : e.t4 ≤ x) :
    ∃ s ∈ selectSamples samples, (s.localNs ≤ e.t4 →
      (fit samples e previous count).uncertaintyAt x =
        ((s.delay / 2 + holdoverGrowth * (x - s.localNs) +
          fitResidual (selectSamples samples) e.midpoint
            (fitOffset (selectSamples samples) e.midpoint drift) drift +
          timestampAllowance : ℚ) : WithTop ℚ)) := by
  have hselected : (selectSamples samples).map
      (fun s => s.delay / 2 + max ((e.t4 : ℚ) - s.localNs) 0 * holdoverGrowth) ≠ [] := by
    simpa using selectSamples_ne_nil hne
  obtain ⟨y, hy, heq, -⟩ := foldMin_spec hselected
  obtain ⟨s, hs, rfl⟩ := List.mem_map.mp hy
  refine ⟨s, hs, ?_⟩
  intro hlocal
  have hage : max ((e.t4 : ℚ) - s.localNs) 0 = e.t4 - s.localNs :=
    max_eq_left (sub_nonneg.mpr hlocal)
  have hgrowth : ((x - e.t4 : Nat) : ℚ) = (x : ℚ) - e.t4 := Nat.cast_sub hx
  simp only [ClockMapping.uncertaintyAt, fit, hdrift, heq, hage, hgrowth, ← WithTop.coe_add]
  rw [WithTop.coe_inj]
  ring

/-- With every retained exchange short enough, the floor of the uncertainty
covers the clock's motion during the exchange and all truncation. -/
theorem ClockEstimator.Tracks.leaderTime_error {leader : ℝ → ℝ} (hleader : LeaderClock leader)
    {c : ClockEstimator} {e : Exchange} {previous : ℚ} {count : Nat} (h : c.Tracks leader)
    (hadmissible : e.admissible = true) (hmem : e.sample ∈ c.samples)
    (hlast : c.lastObserved = some e.midpoint)
    (hmapping : c.mapping = fit c.samples e previous count) {x : Nat} (hx : e.t4 ≤ x)
    (hnonneg : 0 ≤ leader x) (hmax : leader x ≤ i64Max) :
    ∃ u : ℚ, c.mapping.uncertaintyAt x = (u : WithTop ℚ) ∧
      |(c.mapping.leaderTime x : ℝ) - leader x| ≤ (u : ℝ) + 1 := by
  obtain ⟨h14, -, -, h4, -⟩ := Exchange.le_of_admissible hadmissible
  have hbound := h.drift
  rw [hmapping] at hbound ⊢
  obtain ⟨drift, hdrift⟩ :
      ∃ drift, fitDrift (selectSamples c.samples) e.midpoint previous = drift := ⟨_, rfl⟩
  change |fitDrift (selectSamples c.samples) e.midpoint previous| ≤ maxDrift at hbound
  rw [hdrift] at hbound
  obtain ⟨s, hs, huncertainty⟩ :=
    fit_uncertaintyAt (List.ne_nil_of_mem hmem) e previous count hdrift hx
  have hsamples : s ∈ c.samples := selectSamples_subset _ hs
  have hpast : s.localNs ≤ e.midpoint := by
    obtain ⟨last, hobserved, hle⟩ := h.past.1 s hsamples
    rw [hlast] at hobserved
    obtain rfl := Option.mem_some_iff.mp hobserved
    exact hle
  have hlocal : s.localNs ≤ e.t4 := hpast.trans (e.midpoint_le h14)
  refine ⟨_, huncertainty hlocal, ?_⟩
  have hresidual : |s.offset - (fitOffset (selectSamples c.samples) e.midpoint drift +
      drift * (s.localNs - e.midpoint))| ≤
        fitResidual (selectSamples c.samples) e.midpoint
          (fitOffset (selectSamples c.samples) e.midpoint drift) drift :=
    (le_foldl_max _ 0).2 _ (List.mem_map_of_mem hs)
  have hlocalx : (s.localNs : ℝ) ≤ x := by
    have : s.localNs ≤ (x : ℚ) := hlocal.trans (by exact_mod_cast hx)
    exact_mod_cast this
  have hline := (h.sound.1 s hsamples).fit_error hleader hbound hresidual hlocalx
  have hreference := fit_line c.samples previous count h14 h4 hdrift hbound (x : ℝ)
  rw [ClockMapping.line_natCast] at hreference
  have hshort : (s.duration : ℝ) ≤ coveredExchangeNs := by
    exact_mod_cast h.short.1 s hsamples
  -- 250 ppm of the duration, the grain of the timestamps and the truncated
  -- reference fit into the floor.
  have hfloor : (maxDrift : ℝ) * ((s.duration : ℝ) / 2) + 1 + (maxDrift : ℝ) / 2 ≤
      (timestampAllowance : ℝ) := by
    norm_num [maxDrift, timestampAllowance, coveredExchangeNs] at hshort ⊢
    linarith
  apply ClockMapping.leaderTime_error _ x hnonneg hmax
  have htrue : leader x = x + trueOffset leader x := by
    simp [trueOffset, BoundedRate.offset]
  rw [htrue]
  push_cast
  rw [abs_le] at hline hreference ⊢
  constructor <;> linarith [hline.1, hline.2, hreference.1, hreference.2]

/-- The leader's clock is nonnegative from the receipt of a reply on: the reply
carries a nonnegative reading of it. -/
theorem Exchange.Honest.leader_nonneg {leader : ℝ → ℝ} (hleader : LeaderClock leader)
    {e : Exchange} (h : e.Honest leader) {x : ℝ} (hx : (e.t4 : ℝ) ≤ x) : 0 ≤ leader x := by
  obtain ⟨a, b, -, -, hb, -, ht3, -⟩ := h
  have hmono := hleader.mono (by norm_num [maxDrift]) (hb.trans hx)
  have hpos : (0 : ℝ) ≤ e.t3 := Nat.cast_nonneg _
  linarith

/-- While no admitted exchange lasts longer than the floor can pay for, the
mapping is within its uncertainty of the leader's clock at every later time. -/
theorem leaderTime_within_uncertainty {leader : ℝ → ℝ} (hleader : LeaderClock leader)
    (history : List Arrival) (a : Arrival)
    (hhonest : ∀ b ∈ history ++ [a], b.exchange.Honest leader)
    (hshort : ∀ b ∈ history ++ [a],
      b.exchange.admissible = true → b.exchange.duration ≤ coveredExchangeNs)
    (haccepted : ((Machine.run ClockEstimator.feed ClockEstimator.default history).feed a).2 =
      true)
    (x : Nat)
    (hx : ((Machine.run ClockEstimator.feed ClockEstimator.default
      history).feed a).1.mapping.lastSampleNs ≤ x)
    (hmax : leader x ≤ i64Max) :
    ∃ u : ℚ,
      ((Machine.run ClockEstimator.feed ClockEstimator.default
        history).feed a).1.mapping.uncertaintyAt x = (u : WithTop ℚ) ∧
      |(((Machine.run ClockEstimator.feed ClockEstimator.default
        history).feed a).1.mapping.leaderTime x : ℝ) - leader x| ≤ (u : ℝ) + 1 := by
  have htracks := tracks_run hleader hhonest hshort (tracks_default leader)
  rw [Machine.run_append] at htracks
  simp only [Machine.run_cons, Machine.run_nil] at htracks
  obtain ⟨hok, hmem, hlast, count, hmapping⟩ :=
    ClockEstimator.observeInner_fit_of_accepted haccepted
  have hreceipt : ((Machine.run ClockEstimator.feed ClockEstimator.default
      history).feed a).1.mapping.lastSampleNs = a.exchange.t4 :=
    congrArg ClockMapping.lastSampleNs hmapping
  have hreceived : a.exchange.t4 ≤ x := hreceipt ▸ hx
  have hnonneg : 0 ≤ leader x :=
    (hhonest a (by simp)).leader_nonneg hleader (by exact_mod_cast hreceived)
  exact htracks.leaderTime_error hleader hok hmem hlast hmapping hreceived hnonneg hmax

/-- A leader five seconds ahead, one exchange with a path asymmetry of 7 ms, read
one second later. -/
theorem leaderTime_within_uncertainty_of_offset_leader :
    ∃ u : ℚ,
      ((Machine.run ClockEstimator.feed ClockEstimator.default []).feed
        ⟨⟨1000000000, 6001000000, 6001020000, 1009020000⟩, none,
          1009020000⟩).1.mapping.uncertaintyAt 2009020000 = (u : WithTop ℚ) ∧
      |(((Machine.run ClockEstimator.feed ClockEstimator.default []).feed
        ⟨⟨1000000000, 6001000000, 6001020000, 1009020000⟩, none,
          1009020000⟩).1.mapping.leaderTime 2009020000 : ℝ) -
        (fun x : ℝ => x + 5000000000) (2009020000 : Nat)| ≤ (u : ℝ) + 1 := by
  refine leaderTime_within_uncertainty (leaderClock_add 5000000000) [] _ ?_ ?_
    (by decide +kernel) _ (by decide +kernel) ?_
  · intro b hb
    obtain rfl : b = _ := by simpa using hb
    exact ⟨1001000000, 1001020000, by norm_num, by norm_num, by norm_num,
      by constructor <;> norm_num, by constructor <;> norm_num⟩
  · intro b hb
    obtain rfl : b = _ := by simpa using hb
    exact fun _ => by decide
  · norm_num [i64Max]

/-- The turning point of `turningLeader`. -/
def turningNs : Nat := 10000000000

/-- A leader that runs 500 ppm slow up to the turning point and 500 ppm fast
from there on. -/
noncomputable def turningLeader (x : ℝ) : ℝ := x + 5000000000 + |x - turningNs| / 2000

theorem turningLeader_clock : LeaderClock turningLeader := by
  intro x y
  have hsplit : BoundedRate.offset turningLeader x - BoundedRate.offset turningLeader y =
      (|x - turningNs| - |y - turningNs|) / 2000 := by
    simp only [BoundedRate.offset, turningLeader]
    ring
  have htriangle := abs_abs_sub_abs_le_abs_sub (x - turningNs) (y - turningNs)
  rw [sub_sub_sub_cancel_right] at htriangle
  rw [hsplit, abs_div, abs_of_pos (by norm_num : (0 : ℝ) < 2000)]
  norm_num [maxDrift]
  linarith

/-- An exchange every 400 ms before the turning point, its reply instantaneous:
the fit learns the slow rate. -/
def turningHistory : List Arrival :=
  (List.range 15).map (fun i =>
    let received := turningNs - 400000000 * (15 - i)
    let reading := received + 5000000000 + 200000 * (15 - i)
    ⟨⟨received - 250000, reading, reading, received⟩, none, received⟩)

/-- An exchange that starts at the turning point and takes the longest admitted
time, nearly all of it between receipt and reply at the leader. -/
def longArrival : Arrival :=
  ⟨⟨turningNs, 15000000000, 15499999875, 10500000000⟩, none, 10500000000⟩

theorem turningHistory_honest :
    ∀ b ∈ turningHistory ++ [longArrival], b.exchange.Honest turningLeader := by
  intro b hb
  rcases List.mem_append.mp hb with hprior | hlast
  · obtain ⟨i, hi, rfl⟩ := List.mem_map.mp hprior
    have hlt : i < 15 := List.mem_range.mp hi
    obtain ⟨k, hk, hpos, hle⟩ : ∃ k, 15 - i = k ∧ 0 < k ∧ k ≤ 15 :=
      ⟨15 - i, rfl, by omega, by omega⟩
    simp only [hk, Exchange.Honest, turningNs]
    have hreceived : ((10000000000 - 400000000 * k : Nat) : ℝ) = 10000000000 - 400000000 * k := by
      rw [Nat.cast_sub (by omega)]
      push_cast
      ring
    have hsent : ((10000000000 - 400000000 * k - 250000 : Nat) : ℝ) =
        10000000000 - 400000000 * k - 250000 := by
      rw [Nat.cast_sub (by omega), hreceived]
      norm_num
    have hreading : turningLeader (10000000000 - 400000000 * k) =
        10000000000 - 400000000 * (k : ℝ) + 5000000000 + 200000 * k := by
      have habs : |(10000000000 : ℝ) - 400000000 * k - turningNs| = 400000000 * k := by
        rw [show (10000000000 : ℝ) - 400000000 * k - turningNs = -(400000000 * k) by
          norm_num [turningNs], abs_neg]
        exact abs_of_nonneg (by positivity)
      rw [turningLeader, habs]
      ring
    push_cast
    rw [hsent, hreceived]
    refine ⟨10000000000 - 400000000 * k, 10000000000 - 400000000 * k, by linarith, le_rfl, le_rfl,
      ?_, ?_⟩ <;> exact ⟨by rw [hreading], by rw [hreading]; linarith⟩
  · obtain rfl := List.mem_singleton.mp hlast
    refine ⟨10000000000, 10499750000, ?_, ?_, ?_, ?_, ?_⟩
    · norm_num [longArrival, turningNs]
    · norm_num
    · norm_num [longArrival]
    · constructor <;> norm_num [longArrival, turningLeader, turningNs]
    · constructor <;> norm_num [longArrival, turningLeader, turningNs, abs_of_nonneg]

/-- After the long exchange the mapping is off by 375 µs against a stated
uncertainty of 350 µs. -/
theorem uncertainty_not_sound_for_long_exchanges :
    ¬ ∀ leader : ℝ → ℝ, LeaderClock leader → ∀ (history : List Arrival) (a : Arrival),
      (∀ b ∈ history ++ [a], b.exchange.Honest leader) →
      ((Machine.run ClockEstimator.feed ClockEstimator.default history).feed a).2 = true →
      ∀ x : Nat,
        ((Machine.run ClockEstimator.feed ClockEstimator.default
          history).feed a).1.mapping.lastSampleNs ≤ x →
        leader x ≤ i64Max →
        ∃ u : ℚ,
          ((Machine.run ClockEstimator.feed ClockEstimator.default
            history).feed a).1.mapping.uncertaintyAt x = (u : WithTop ℚ) ∧
          |(((Machine.run ClockEstimator.feed ClockEstimator.default
            history).feed a).1.mapping.leaderTime x : ℝ) - leader x| ≤ (u : ℝ) + 1 := by
  intro hsound
  have hleader : turningLeader ((10500000000 : Nat) : ℝ) = 15500250000 := by
    norm_num [turningLeader, turningNs, abs_of_nonneg]
  obtain ⟨u, hu, herror⟩ := hsound turningLeader turningLeader_clock turningHistory longArrival
    turningHistory_honest (by decide +kernel) 10500000000 (by decide +kernel)
    (by rw [hleader]; norm_num [i64Max])
  have huncertainty : ((Machine.run ClockEstimator.feed ClockEstimator.default
      turningHistory).feed longArrival).1.mapping.uncertaintyAt 10500000000 =
        ((700125 / 2 : ℚ) : WithTop ℚ) := by
    decide +kernel
  have htime : ((Machine.run ClockEstimator.feed ClockEstimator.default
      turningHistory).feed longArrival).1.mapping.leaderTime 10500000000 = 15499874937 := by
    decide +kernel
  rw [huncertainty, WithTop.coe_inj] at hu
  subst hu
  rw [htime, hleader] at herror
  norm_num [abs_le] at herror

end Tidkod
