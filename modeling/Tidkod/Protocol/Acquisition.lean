import Mathlib.Tactic
import Tidkod.Protocol.CheckedFollower
import Tidkod.Protocol.ClockAccuracy
import Tidkod.Protocol.ClockFit
import Tidkod.Protocol.HonestAcceptance
import Tidkod.Protocol.Quarantine
import Tidkod.Protocol.SyncReporting

/-!
How a follower acquires its leader. When a session begins with a burst of honest exchanges
over short round trips, none of them is rejected, whatever the snapshots and ticks in between,
and the twelfth after half a second or more locks the clock. The offset is then their mean, so
the published uncertainty is bounded by the round trip and the length of the burst.
-/

namespace Tidkod

open BoundedRate Rounding

/-- Half the spread that is taken for a changed path, so that no delay of the burst is. -/
def promptNs : ℚ := 20000000

/-- A burst is too short to fit a drift to. -/
def burstNs : ℚ := 2000000000

/-- Honest exchanges in order, each complete within `roundTrip` and all within `window`. -/
structure Burst (leader : ℝ → ℝ) (roundTrip window : ℚ) (history : List Arrival) : Prop where
  honest : ∀ a ∈ history, a.exchange.Honest leader
  admissible : ∀ a ∈ history, a.exchange.admissible = true
  prompt : ∀ a ∈ history, (a.exchange.duration : ℚ) ≤ roundTrip
  ordered : history.Pairwise fun a b => a.exchange.midpoint < b.exchange.midpoint
  window : ∀ a ∈ history, ∀ b ∈ history, b.exchange.midpoint - a.exchange.midpoint ≤ window
  bounded : history.length ≤ 128

/-- The samples of the exchanges of a burst. -/
def burstSamples (history : List Arrival) : List Sample := history.map fun a => a.exchange.sample

section Burst

variable {leader : ℝ → ℝ} {roundTrip window : ℚ} {history : List Arrival} {a : Arrival}

theorem Burst.initial (h : Burst leader roundTrip window (history ++ [a])) :
    Burst leader roundTrip window history where
  honest := fun b hb => h.honest b (List.mem_append_left _ hb)
  admissible := fun b hb => h.admissible b (List.mem_append_left _ hb)
  prompt := fun b hb => h.prompt b (List.mem_append_left _ hb)
  ordered := (List.pairwise_append.mp h.ordered).1
  window := fun b hb d hd =>
    h.window b (List.mem_append_left _ hb) d (List.mem_append_left _ hd)
  bounded := by
    have hlength := h.bounded
    rw [List.length_append] at hlength
    omega

theorem Exchange.delay_bounds {e : Exchange} (h : e.admissible = true) :
    0 ≤ e.delay ∧ (e.delay : ℚ) ≤ e.duration := by
  have hnonneg : 0 ≤ e.delay := by
    simp only [Exchange.admissible, Bool.and_eq_true, decide_eq_true_eq] at h
    exact h.2.1
  refine ⟨hnonneg, ?_⟩
  have hle : e.delay ≤ (e.duration : Int) := by
    unfold Exchange.delay Exchange.duration
    omega
  exact_mod_cast hle

/-- Every sample of a burst is sound, quick and close to every other. -/
theorem Burst.sample (hleader : LeaderClock leader) (h : Burst leader roundTrip window history)
    {s : Sample} (hs : s ∈ burstSamples history) :
    s.Sound leader ∧ 0 ≤ s.delay ∧ s.delay ≤ roundTrip ∧ s.duration ≤ roundTrip := by
  obtain ⟨b, hb, rfl⟩ := List.mem_map.mp hs
  have hok := h.admissible b hb
  obtain ⟨hnonneg, hle⟩ := Exchange.delay_bounds hok
  refine ⟨(h.honest b hb).sample_sound hleader hok, ?_, hle.trans (h.prompt b hb), h.prompt b hb⟩
  change (0 : ℚ) ≤ (b.exchange.delay : ℚ)
  exact_mod_cast hnonneg

theorem Burst.sample_window (h : Burst leader roundTrip window history) {s t : Sample}
    (hs : s ∈ burstSamples history) (ht : t ∈ burstSamples history) :
    t.localNs - s.localNs ≤ window := by
  obtain ⟨b, hb, rfl⟩ := List.mem_map.mp hs
  obtain ⟨d, hd, rfl⟩ := List.mem_map.mp ht
  exact h.window b hb d hd

/-- The estimator after a burst: it has kept every exchange, and fitted no drift. -/
structure Kept (history : List Arrival) (c : ClockEstimator) : Prop where
  samples : c.samples = burstSamples history
  recovery : c.recovery = []
  drift : c.mapping.drift = 0
  lastObserved : c.lastObserved = history.getLast?.map fun a => a.exchange.midpoint
  mapping : ∀ b ∈ history.getLast?, ∃ count,
    c.mapping = ClockEstimator.fit (burstSamples history) b.exchange 0 count

theorem kept_nil : Kept [] ClockEstimator.default where
  samples := rfl
  recovery := rfl
  drift := rfl
  lastObserved := rfl
  mapping := fun _ hb => absurd hb (by simp)

/-- Two seconds are not covered, so the drift is the previous one. -/
theorem Burst.fitDrift (h : Burst leader roundTrip window history) (hshort : window < burstNs)
    (hne : history ≠ []) (localNs previous : ℚ) :
    ClockEstimator.fitDrift (selectSamples (burstSamples history)) localNs previous =
      previous := by
  apply ClockEstimator.fitDrift_of_not_supported
  · apply selectSamples_ne_nil
    simpa [burstSamples] using hne
  · rintro ⟨-, s, hs, t, ht, hspan⟩
    have hwindow := h.sample_window (selectSamples_subset _ hs) (selectSamples_subset _ ht)
    have hlong : burstNs ≤ t.localNs - s.localNs := hspan
    linarith

/-- The next exchange of a burst is accepted and fitted together with all before it. -/
theorem Kept.feed (hleader : LeaderClock leader)
    (h : Burst leader roundTrip window (history ++ [a])) (hprompt : roundTrip ≤ promptNs)
    (hshort : window < burstNs) {c : ClockEstimator} (hc : Kept history c)
    (hhonest : c.Honest leader) :
    (c.feed a).2 = true ∧ Kept (history ++ [a]) (c.feed a).1 := by
  have hok : a.exchange.admissible = true := h.admissible a (by simp)
  have hnew : ∀ last ∈ c.lastObserved, last < a.exchange.midpoint := by
    intro last hlast
    rw [hc.lastObserved] at hlast
    obtain ⟨b, hb, rfl⟩ := Option.map_eq_some_iff.mp (Option.mem_def.mp hlast)
    exact (List.pairwise_append.mp h.ordered).2.2 b (List.mem_of_getLast? hb) a (by simp)
  have hexpire : ClockEstimator.expire c.samples a.exchange.midpoint = burstSamples history := by
    rw [hc.samples, ClockEstimator.expire, List.dropWhile_eq_self_iff]
    intro hpos
    have hmem : (burstSamples history)[0] ∈ burstSamples (history ++ [a]) := by
      rw [burstSamples, List.map_append]
      exact List.mem_append_left _ (List.getElem_mem hpos)
    have hlast : a.exchange.sample ∈ burstSamples (history ++ [a]) :=
      List.mem_map_of_mem (by simp)
    have hwindow := h.sample_window hmem hlast
    simp only [Exchange.sample, burstNs] at hwindow hshort
    refine fun hold => absurd (of_decide_eq_true hold) (not_lt.mpr ?_)
    unfold historyNs
    linarith
  have hdelay : ClockEstimator.rejectedDelay (c.arrived a.exchange).samples a.exchange.sample =
      false := by
    apply ClockEstimator.rejectedDelay_eq_false
    intro r hr
    change r ∈ ClockEstimator.expire c.samples a.exchange.midpoint at hr
    rw [hexpire] at hr
    obtain ⟨-, hnonneg, -, -⟩ := h.initial.sample hleader hr
    have hown := (Exchange.delay_bounds hok).2.trans (h.prompt a (by simp))
    change (a.exchange.delay : ℚ) ≤ r.delay + 20000000
    unfold promptNs at hprompt
    linarith
  have hoffset := hhonest.rejectedOffset hleader (h.honest a (by simp)) hok hnew
  have hkept : keepLast 128 (burstSamples history ++ [a.exchange.sample]) =
      burstSamples (history ++ [a]) := by
    rw [ClockEstimator.keepLast_of_length_le]
    · simp [burstSamples]
    · have hlength := h.bounded
      simpa [burstSamples] using hlength
  obtain ⟨count, hnext⟩ : ∃ count, c.observeInner a.exchange =
      (ClockEstimator.refit { c.arrived a.exchange with
        samples := (c.arrived a.exchange).samples ++ [a.exchange.sample], recovery := [] }
        a.exchange count, true) := by
    rw [ClockEstimator.observeInner_of_new hok hnew, ClockEstimator.decideSample]
    simp only [hdelay, hoffset, Bool.or_false, Bool.false_eq_true, if_false]
    exact ⟨_, rfl⟩
  have hsamples : (c.observeInner a.exchange).1.samples = burstSamples (history ++ [a]) := by
    rw [hnext, ClockEstimator.refit_samples]
    change keepLast 128 (ClockEstimator.expire c.samples a.exchange.midpoint ++ _) = _
    rw [hexpire, hkept]
  have hmapping : (c.observeInner a.exchange).1.mapping =
      ClockEstimator.fit (burstSamples (history ++ [a])) a.exchange 0 count := by
    rw [← hsamples, ← hc.drift, hnext]
    rfl
  -- The trace is all that the feed adds to the observation.
  refine ⟨congrArg Prod.snd hnext, hsamples, ?_, ?_, ?_, ?_⟩
  · change (c.observeInner a.exchange).1.recovery = []
    rw [hnext]
    rfl
  · change (c.observeInner a.exchange).1.mapping.drift = 0
    rw [hmapping]
    exact h.fitDrift hshort (by simp) _ _
  · change (c.observeInner a.exchange).1.lastObserved = _
    rw [hnext, List.getLast?_concat]
    rfl
  · intro b hb
    rw [List.getLast?_concat] at hb
    obtain rfl := Option.some.inj (Option.mem_def.mp hb)
    exact ⟨count, hmapping⟩

theorem Burst.kept (hleader : LeaderClock leader) (h : Burst leader roundTrip window history)
    (hprompt : roundTrip ≤ promptNs) (hshort : window < burstNs) :
    Kept history (Machine.run ClockEstimator.feed ClockEstimator.default history) := by
  induction history using List.reverseRecOn with
  | nil => exact kept_nil
  | append_singleton history a ih =>
      have hhonest := honest_run hleader h.initial.honest (honest_default leader)
      rw [Machine.run_append]
      exact (Kept.feed hleader h hprompt hshort (ih h.initial) hhonest).2

/-- How far apart the offsets that a burst measures can be. -/
def burstSpread (roundTrip window : ℚ) : ℚ := roundTrip + maxDrift * (roundTrip + window) + 2

/-- Two samples of a burst measure one clock within the window. -/
theorem Burst.offset_spread (hleader : LeaderClock leader)
    (h : Burst leader roundTrip window history) {s t : Sample} (hs : s ∈ burstSamples history)
    (ht : t ∈ burstSamples history) : |s.offset - t.offset| ≤ burstSpread roundTrip window := by
  obtain ⟨hsound, -, hdelay, hduration⟩ := h.sample hleader hs
  obtain ⟨hsound', -, hdelay', hduration'⟩ := h.sample hleader ht
  have hown := hsound s.localNs
  have hother := hsound' s.localNs
  rw [sub_self, abs_zero, zero_add] at hown
  have happart : |(s.localNs : ℝ) - t.localNs| ≤ window := by
    have hq : |s.localNs - t.localNs| ≤ window := by
      rw [abs_le]
      constructor <;> linarith [h.sample_window hs ht, h.sample_window ht hs]
    exact_mod_cast hq
  have hdelay : (s.delay : ℝ) ≤ roundTrip := by exact_mod_cast hdelay
  have hdelay' : (t.delay : ℝ) ≤ roundTrip := by exact_mod_cast hdelay'
  have hduration : (s.duration : ℝ) ≤ roundTrip := by exact_mod_cast hduration
  have hduration' : (t.duration : ℝ) ≤ roundTrip := by exact_mod_cast hduration'
  have hreal : |(s.offset : ℝ) - t.offset| ≤
      roundTrip + (maxDrift : ℝ) * (roundTrip + window) + 2 := by
    norm_num [maxDrift] at hown hother ⊢
    rw [abs_le] at hown hother ⊢
    constructor <;> linarith [hown.1, hown.2, hother.1, hother.2]
  exact_mod_cast hreal

/-- Without a drift the fit is the mean of the offsets, and no further from one of them than
they are apart. -/
theorem Burst.residual (hleader : LeaderClock leader)
    (h : Burst leader roundTrip window history) (hne : history ≠ []) (localNs : ℚ) :
    ClockEstimator.fitResidual (selectSamples (burstSamples history)) localNs
        (ClockEstimator.fitOffset (selectSamples (burstSamples history)) localNs 0) 0 ≤
      burstSpread roundTrip window := by
  have hall : burstSamples history ≠ [] := by simpa [burstSamples] using hne
  obtain ⟨first, hfirst⟩ := List.exists_mem_of_ne_nil _ (selectSamples_ne_nil hall)
  unfold ClockEstimator.fitResidual
  obtain hzero | hattained := foldl_max_attained _ (0 : ℚ)
  · rw [hzero]
    have hself := h.offset_spread hleader (selectSamples_subset _ hfirst)
      (selectSamples_subset _ hfirst)
    exact (abs_nonneg _).trans hself
  · obtain ⟨s, hs, hvalue⟩ := List.mem_map.mp hattained
    rw [← hvalue]
    have hmean : |s.offset - LeastSquares.mean Sample.offset
        (selectSamples (burstSamples history))| ≤ burstSpread roundTrip window := by
      apply LeastSquares.abs_sub_mean_le (List.ne_nil_of_mem hfirst)
      intro t ht
      exact h.offset_spread hleader (selectSamples_subset _ hs) (selectSamples_subset _ ht)
    simpa [ClockEstimator.fitOffset, LeastSquares.mean] using hmean

/-- The uncertainty that a burst may leave. -/
def burstUncertainty (roundTrip window : ℚ) : ℚ :=
  roundTrip / 2 + holdoverGrowth * (window + roundTrip / 2) + burstSpread roundTrip window +
    timestampAllowance

theorem Burst.uncertainty (hleader : LeaderClock leader)
    (h : Burst leader roundTrip window (history ++ [a])) (hshort : window < burstNs)
    (count : Nat) {x : Nat} (hx : a.exchange.t4 ≤ x) :
    ∃ u : ℚ, (ClockEstimator.fit (burstSamples (history ++ [a])) a.exchange 0 count).uncertaintyAt
        x = (u : WithTop ℚ) ∧
      u ≤ burstUncertainty roundTrip window + holdoverGrowth * (x - a.exchange.t4) := by
  have hlast : a.exchange.sample ∈ burstSamples (history ++ [a]) :=
    List.mem_map_of_mem (by simp)
  obtain ⟨s, hs, huncertainty⟩ := ClockEstimator.fit_uncertaintyAt (List.ne_nil_of_mem hlast)
    a.exchange 0 count (h.fitDrift hshort (by simp) a.exchange.midpoint 0) hx
  have hmem := selectSamples_subset _ hs
  obtain ⟨-, -, hdelay, -⟩ := h.sample hleader hmem
  have hok := h.admissible a (by simp)
  obtain ⟨h14, -⟩ := Exchange.le_of_admissible hok
  have hbefore : s.localNs ≤ a.exchange.midpoint := by
    obtain ⟨b, hb, rfl⟩ := List.mem_map.mp hmem
    obtain hb | hb := List.mem_append.mp hb
    · exact ((List.pairwise_append.mp h.ordered).2.2 b hb a (by simp)).le
    · rw [List.mem_singleton.mp hb]
      exact le_rfl
  have hage := h.sample_window hmem hlast
  have hreceipt : (a.exchange.t4 : ℚ) - a.exchange.midpoint ≤ roundTrip / 2 := by
    have hduration := h.prompt a (by simp)
    rw [Exchange.midpoint_eq h14]
    simp only [Exchange.duration, Nat.cast_sub h14] at hduration
    linarith
  refine ⟨_, huncertainty (hbefore.trans (a.exchange.midpoint_le h14)), ?_⟩
  have hresidual := h.residual hleader (by simp) a.exchange.midpoint
  simp only [Exchange.sample] at hage
  unfold burstUncertainty
  norm_num [holdoverGrowth] at hresidual ⊢
  linarith

/-- The exchange locks the clock: there are twelve, over half a second. -/
def Locks (history : List Arrival) (a : Arrival) : Prop :=
  11 ≤ history.length ∧
    ∀ first ∈ history.head?, 500000000 ≤ a.exchange.midpoint - first.exchange.midpoint

instance (history : List Arrival) (a : Arrival) : Decidable (Locks history a) :=
  inferInstanceAs (Decidable (_ ∧ _))

theorem converged_iff (history : List Arrival) (a : Arrival) (previous : ℚ) (count : Nat) :
    (ClockEstimator.fit (burstSamples (history ++ [a])) a.exchange previous count).converged =
      true ↔ Locks history a := by
  cases history with
  | nil => simp [ClockEstimator.fit, burstSamples, Locks]
  | cons first rest =>
      have hlast : (burstSamples (first :: rest ++ [a])).getLast? = some a.exchange.sample := by
        rw [burstSamples, List.map_append]
        exact List.getLast?_concat
      have hfirst : (burstSamples (first :: rest ++ [a])).head? = some first.exchange.sample := rfl
      have hlength : (burstSamples (first :: rest ++ [a])).length = rest.length + 2 := by
        simp [burstSamples]
      generalize burstSamples (first :: rest ++ [a]) = samples at hlast hfirst hlength ⊢
      simp [ClockEstimator.fit, hlast, hfirst, hlength, Locks, Exchange.sample]

/-- Later exchanges of a burst keep the lock. -/
theorem Locks.later {b : Arrival} (h : Burst leader roundTrip window (history ++ [a] ++ [b]))
    (hlocks : Locks history a) : Locks (history ++ [a]) b := by
  obtain ⟨hmany, hspan⟩ := hlocks
  have hafter : a.exchange.midpoint < b.exchange.midpoint :=
    (List.pairwise_append.mp h.ordered).2.2 a (by simp) b (by simp)
  refine ⟨?_, fun first hfirst => ?_⟩
  · rw [List.length_append]
    omega
  · cases history with
    | nil => exact absurd hmany (by simp)
    | cons head rest =>
        have hspan := hspan first hfirst
        linarith

end Burst

namespace FollowerCore

/-- The exchanges among the operations. -/
def exchangesOf (ops : List Op) : List Arrival :=
  ops.filterMap fun
    | .measurementTimed e publicationNs processedNs => some ⟨e, publicationNs, processedNs⟩
    | _ => none

/-- A connected follower that is pinned to the session it shows, with the exchanges since it
took that session up. -/
structure Acquiring (leader : ℝ → ℝ) (history : List Arrival) (c : FollowerCore) : Prop where
  inv : c.Inv
  pinned : c.expectedSession = some c.view.timeline.session
  remote : c.view.localClock = false
  connection : c.view.connection = .connected
  estimator : c.estimator = Machine.run ClockEstimator.feed ClockEstimator.default history
  recovering : c.view.recovering = c.estimator.recovering
  locked : c.everLocked = c.estimator.mapping.converged
  knows : c.Knows leader

variable {leader : ℝ → ℝ} {roundTrip window : ℚ} {history : List Arrival} {c : FollowerCore}

theorem correct_quiet (c : FollowerCore) (before : Position) (now : Nat) (measurement : Bool) :
    (c.correct before now measurement).1.view.connection = c.view.connection ∧
      (c.correct before now measurement).1.view.recovering = c.view.recovering ∧
      (c.correct before now measurement).1.everLocked = c.everLocked := by
  have houtcome := correct_outcome c before now measurement
  generalize c.correct before now measurement = result at houtcome ⊢
  cases houtcome <;> exact ⟨rfl, rfl, rfl⟩

/-- A snapshot of the pinned session moves the timeline only. -/
theorem Acquiring.state (h : c.Acquiring leader history) (t : Validated) (now : Nat) :
    (c.state t.timeline now).1.Acquiring leader history := by
  have hinv := h.inv.step (.state t now)
  have hremote := (c.step_localClock (.state t now)).trans h.remote
  have houtcome := state_outcome c t.timeline now
  simp only [step] at hinv hremote
  generalize c.state t.timeline now = result at houtcome hinv hremote ⊢
  cases houtcome with
  | foreign => exact h
  | adopted hexpected hsession =>
      exact absurd (hexpected _ h.pinned) hsession
  | refused hexpected hsession =>
      exact { h with
        inv := hinv, pinned := congrArg some hsession.symm, knows := h.knows.congr rfl rfl }
  | jumped hexpected hsession =>
      exact { h with inv := hinv, pinned := rfl, knows := h.knows.congr rfl rfl }
  | refined hexpected hsession =>
      obtain ⟨hconnection, hrecovering, hlocked⟩ := correct_quiet
        ((c.pin t.timeline.session).follow t.timeline now) (c.view.evaluate now).position now false
      refine ⟨hinv, ?_, hremote, hconnection.trans h.connection, ?_, ?_, ?_, ?_⟩
      · rw [correct_expectedSession, correct_timeline]
        rfl
      · rw [correct_estimator]
        exact h.estimator
      · rw [hrecovering, correct_estimator]
        exact h.recovering
      · rw [hlocked, correct_estimator]
        exact h.locked
      · exact h.knows.congr (by rw [correct_estimator]; rfl) (by rw [correct_mapping]; rfl)

theorem Acquiring.tick (h : c.Acquiring leader history) (now staleAfter : Nat) :
    (c.tick now staleAfter).1.Acquiring leader history := by
  have hinv := h.inv.step (.tick now staleAfter)
  have houtcome := tick_outcome c now staleAfter
  simp only [step] at hinv
  generalize c.tick now staleAfter = result at houtcome hinv ⊢
  cases houtcome with
  | unknown => exact h
  | reported => exact { h with inv := hinv, knows := h.knows.congr rfl rfl }
  | silent => exact { h with inv := hinv, knows := h.knows.congr rfl rfl }

/-- The mapping of one more exchange of a burst in force. -/
theorem Acquiring.mapped (hleader : LeaderClock leader) {a : Arrival}
    (hburst : Burst leader roundTrip window (history ++ [a])) (hprompt : roundTrip ≤ promptNs)
    (hshort : window < burstNs) (h : c.Acquiring leader history) :
    (c.estimator.observeInner a.exchange).2 = true ∧
      (c.observed a.exchange a.publicationNs a.processedNs).mapped.Acquiring leader
        (history ++ [a]) := by
  have hkept : Kept history c.estimator :=
    h.estimator ▸ hburst.initial.kept hleader hprompt hshort
  have hhonest : c.estimator.Honest leader :=
    h.estimator ▸ honest_run hleader hburst.initial.honest (honest_default leader)
  obtain ⟨haccepted, hnext⟩ := Kept.feed hleader hburst hprompt hshort hkept hhonest
  have hduration : a.exchange.duration ≤ coveredExchangeNs := by
    have hquick := (hburst.prompt a (by simp)).trans hprompt
    have hlong : (promptNs : ℚ) ≤ (coveredExchangeNs : Nat) := by
      norm_num [promptNs, coveredExchangeNs]
    exact_mod_cast hquick.trans hlong
  refine ⟨haccepted, h.inv.mapped _ _ _, h.pinned, h.remote, h.connection, ?_, rfl, ?_, ?_⟩
  · rw [Machine.run_append, ← h.estimator]
    rfl
  · change (c.everLocked || (c.estimator.feed a).1.mapping.converged) =
      (c.estimator.feed a).1.mapping.converged
    rw [h.locked]
    cases hlocked : c.estimator.mapping.converged with
    | false => rfl
    | true =>
        -- An exchange that locked the clock is followed by exchanges that lock it.
        obtain ⟨count, hmapping⟩ := hnext.mapping a (by simp)
        obtain rfl | ⟨before, b, rfl⟩ := List.eq_nil_or_concat history
        · rw [h.estimator] at hlocked
          exact absurd hlocked (by decide)
        · rw [List.concat_eq_append] at *
          obtain ⟨earlier, hearlier⟩ := hkept.mapping b (by simp)
          rw [hearlier, converged_iff] at hlocked
          rw [hmapping, Bool.true_or]
          exact ((converged_iff _ a 0 count).mpr (hlocked.later hburst)).symm
  · obtain ⟨htracks, haccurate⟩ := h.knows.accepted hleader (hburst.honest a (by simp)) hduration
      haccepted a.publicationNs a.processedNs
    exact ⟨htracks, haccurate⟩

/-- What an exchange of a burst makes of the follower. -/
theorem Acquiring.measure (hleader : LeaderClock leader) {a : Arrival}
    (hburst : Burst leader roundTrip window (history ++ [a])) (hprompt : roundTrip ≤ promptNs)
    (hshort : window < burstNs) (h : c.Acquiring leader history) :
    let d := (c.measurementTimed a.exchange a.publicationNs a.processedNs).1
    d.Acquiring leader (history ++ [a]) ∧
      d.view.sync = if d.estimator.mapping.converged then .synchronized else .acquiring := by
  obtain ⟨haccepted, hmapped⟩ := h.mapped hleader hburst hprompt hshort
  have houtcome := measurementTimed_outcome c a.exchange a.publicationNs a.processedNs
  generalize c.measurementTimed a.exchange a.publicationNs a.processedNs = result at houtcome ⊢
  cases houtcome with
  | unpinned hexpected => exact absurd (hexpected.symm.trans h.pinned) (by simp)
  | rejected _ hrejected => exact absurd (hrejected.symm.trans haccepted) (by decide)
  | acquired =>
      refine ⟨{ hmapped with inv := hmapped.inv.realigned, knows := hmapped.knows.congr rfl rfl },
        rfl⟩
  | jumped _ _ disc hdisc =>
      refine ⟨{ hmapped with
        inv := hmapped.inv.discontinue disc, knows := hmapped.knows.congr rfl rfl }, rfl⟩
  | refined =>
      obtain ⟨hconnection, hrecovering, hlocked⟩ := correct_quiet
        (c.observed a.exchange a.publicationNs a.processedNs).mapped
        (c.view.evaluate (measurementTime a.exchange a.processedNs)).position
        (measurementTime a.exchange a.processedNs) true
      refine ⟨⟨hmapped.inv.correct _ _ _, ?_, ?_, hconnection.trans hmapped.connection, ?_, ?_, ?_,
        ?_⟩, ?_⟩
      · rw [correct_expectedSession, correct_timeline]
        exact hmapped.pinned
      · exact (correct_localClock _ _ _ _).trans hmapped.remote
      · rw [correct_estimator]
        exact hmapped.estimator
      · rw [hrecovering, correct_estimator]
        exact hmapped.recovering
      · rw [hlocked, correct_estimator]
        exact hmapped.locked
      · exact hmapped.knows.congr (by rw [correct_estimator]) (by rw [correct_mapping])
      · rw [correct_sync, correct_estimator]
        rfl

/-- Until the clock has been locked an accepted exchange sets the output to the trajectory. -/
theorem measurementTimed_realigned {e : Exchange} (hunlocked : c.everLocked = false)
    (hpinned : c.expectedSession ≠ none) (haccepted : (c.estimator.observeInner e).2 = true)
    (publicationNs : Option Nat) (processedNs : Nat) :
    (c.measurementTimed e publicationNs processedNs).1 =
      (c.observed e publicationNs processedNs).mapped.realigned := by
  have hopen : (c.observed e publicationNs processedNs).everLocked = false := hunlocked
  have hsome : c.expectedSession.isNone = false :=
    Bool.eq_false_iff.mpr fun hnone => hpinned (Option.isNone_iff_eq_none.mp hnone)
  rw [measurementTimed_eq, applyMapping_eq]
  simp [hopen, hsome, haccepted]

theorem exchangesOf_append (first second : List Op) :
    exchangesOf (first ++ second) = exchangesOf first ++ exchangesOf second :=
  List.filterMap_append

/-- Operations of a session in which the connection lasts. -/
theorem Acquiring.run (hleader : LeaderClock leader) {ops : List Op}
    (hlasts : ∀ op ∈ ops, op ≠ .connected ∧ op ≠ .disconnected)
    (hburst : Burst leader roundTrip window (exchangesOf ops)) (hprompt : roundTrip ≤ promptNs)
    (hshort : window < burstNs) (h : c.Acquiring leader []) :
    (Machine.run step c ops).Acquiring leader (exchangesOf ops) := by
  induction ops using List.reverseRecOn with
  | nil => exact h
  | append_singleton ops op ih =>
      have hearlier : ∀ op ∈ ops, op ≠ .connected ∧ op ≠ .disconnected :=
        fun x hx => hlasts x (List.mem_append_left _ hx)
      rw [Machine.run_append]
      rw [exchangesOf_append] at hburst ⊢
      cases op with
      | connected => exact absurd rfl (hlasts .connected (by simp)).1
      | disconnected => exact absurd rfl (hlasts .disconnected (by simp)).2
      | state t now =>
          change Burst leader roundTrip window (exchangesOf ops ++ []) at hburst
          rw [List.append_nil] at hburst
          change Acquiring leader (exchangesOf ops ++ []) _
          rw [List.append_nil]
          exact (ih hearlier hburst).state t now
      | tick now staleAfter =>
          change Burst leader roundTrip window (exchangesOf ops ++ []) at hburst
          rw [List.append_nil] at hburst
          change Acquiring leader (exchangesOf ops ++ []) _
          rw [List.append_nil]
          exact (ih hearlier hburst).tick now staleAfter
      | measurementTimed e publicationNs processedNs =>
          exact ((ih hearlier hburst.initial).measure hleader (a := ⟨e, publicationNs, processedNs⟩)
            hburst hprompt hshort).1

/-- A session begins with nothing of the ones before. -/
theorem acquiring_of_newSession (hinv : c.Inv) (hremote : c.view.localClock = false)
    (hconnected : c.view.connection = .connected) {t : Validated} {now : Nat}
    (hnew : (c.state t.timeline now).2 = some .newSession) :
    (c.state t.timeline now).1.Acquiring leader [] := by
  have hnext := hinv.step (.state t now)
  simp only [step] at hnext
  rw [state_of_newSession hnew] at hnext ⊢
  exact
    { inv := hnext
      pinned := rfl
      remote := hremote
      connection := hconnected
      estimator := rfl
      recovering := rfl
      locked := rfl
      knows := knows_of_default rfl rfl leader }

/-- The clock is known once it has been locked. -/
theorem Acquiring.initialized (h : c.Acquiring leader history)
    (hconverged : c.estimator.mapping.converged = true) : c.view.initialized = true := by
  have hdated : c.estimator.Dated := by
    rw [h.estimator]
    exact Machine.run_invariant (P := ClockEstimator.Dated) (fun _ a hd => hd.feed a)
      ClockEstimator.dated_default history
  rw [View.initialized_iff, h.inv.mapping]
  exact hdated.dated hconverged

/-- Before an exchange locks the clock the follower has never been locked. -/
theorem Acquiring.unlocked (hleader : LeaderClock leader)
    (hburst : Burst leader roundTrip window history) (hprompt : roundTrip ≤ promptNs)
    (hshort : window < burstNs) (h : c.Acquiring leader history)
    (hfirst : ∀ earlier b, history = earlier ++ [b] → ¬ Locks earlier b) :
    c.everLocked = false := by
  have hkept := hburst.kept hleader hprompt hshort
  rw [← h.estimator] at hkept
  rw [h.locked, Bool.eq_false_iff]
  intro hconverged
  obtain rfl | ⟨earlier, b, hhistory⟩ := List.eq_nil_or_concat history
  · rw [h.estimator] at hconverged
    exact absurd hconverged (by decide)
  · rw [List.concat_eq_append] at hhistory
    subst hhistory
    obtain ⟨count, hmapping⟩ := hkept.mapping b (by simp)
    rw [hmapping, converged_iff] at hconverged
    exact hfirst earlier b rfl hconverged

/-- Once the clock is locked a reading is aligned as soon as its error is small enough. -/
theorem Acquiring.aligned_of_le {a : Arrival} (hleader : LeaderClock leader)
    (hburst : Burst leader roundTrip window (history ++ [a])) (hprompt : roundTrip ≤ promptNs)
    (hshort : window < burstNs) (h : c.Acquiring leader (history ++ [a]))
    (hconverged : c.estimator.mapping.converged = true) (hsync : c.view.sync = .synchronized)
    (hhealthy : c.view.timeline.sourceHealth = .healthy) {x : Nat}
    (herror : (c.view.evaluate x).status.alignmentErrorNs ≤ ((1000000 : ℚ) : WithTop ℚ)) :
    (c.view.evaluate x).status.aligned = true := by
  have hkept := hburst.kept hleader hprompt hshort
  rw [← h.estimator] at hkept
  have hrecovering : c.view.recovering = false := by
    rw [h.recovering, ClockEstimator.recovering, hkept.recovery]
    rfl
  have hevidence : c.view.mapping.evidence.all OffsetEvidence.consistent = true := by
    obtain ⟨count, hmapping⟩ := hkept.mapping a (by simp)
    have hlast : a.exchange.sample ∈ burstSamples (history ++ [a]) :=
      List.mem_map_of_mem (by simp)
    obtain ⟨ev, hev, -, hcontains⟩ := fit_evidence_contains (List.ne_nil_of_mem hlast)
      (fun s hs => (hburst.sample hleader hs).1) a.exchange 0 count
    rw [h.inv.mapping, hmapping, hev, Option.all_some]
    exact hcontains.consistent
  have hunfold : (c.view.evaluate x).status.aligned =
      (c.view.initialized && c.view.connection == .connected && c.view.sync == .synchronized &&
        !c.view.recovering && c.view.timeline.sourceHealth == .healthy &&
        c.view.mapping.evidence.all OffsetEvidence.consistent &&
        decide ((c.view.evaluate x).status.alignmentErrorNs ≤ ((1000000 : ℚ) : WithTop ℚ))) := rfl
  rw [hunfold, h.initialized hconverged, h.connection, hsync, hrecovering, hhealthy, hevidence,
    decide_eq_true herror]
  rfl

end FollowerCore

/-- A follower acquires its leader. From the snapshot of a new session on, over a connection
that lasts, honest exchanges within a short round trip and window are all kept, however
snapshots and ticks come in between; the follower is synchronized with exactly the twelfth that
is half a second or more after the first. The uncertainty it publishes is then bounded by the
round trip and the length of the burst, and pays for the distance of its clock from the
leader's; the output is on the trajectory, and aligned when that bound is small enough. -/
theorem burst_acquires {leader : ℝ → ℝ} (hleader : LeaderClock leader) (position : Position)
    (format : FrameFormat) {policy : CorrectionPolicy} (hpolicy : policy.Admitted)
    (before ops : List Op) (t : Validated) (now : Nat) (a : Arrival) {roundTrip window : ℚ}
    {c d : FollowerCore}
    (hc : c = Machine.run FollowerCore.step
      (FollowerCore.new (fallback position format) policy) before)
    (hconnected : c.view.connection = .connected)
    (hnew : (c.state t.timeline now).2 = some .newSession)
    (hlasts : ∀ op ∈ ops, op ≠ .connected ∧ op ≠ .disconnected)
    (hburst : Burst leader roundTrip window (FollowerCore.exchangesOf ops ++ [a]))
    (hprompt : roundTrip ≤ promptNs) (hshort : window < burstNs)
    (hd : d = Machine.run FollowerCore.step c
      (.state t now :: ops ++ [.measurementTimed a.exchange a.publicationNs a.processedNs])) :
    d.estimator.samples = burstSamples (FollowerCore.exchangesOf ops ++ [a]) ∧
      (d.view.sync = .synchronized ↔ Locks (FollowerCore.exchangesOf ops) a) ∧
      (Locks (FollowerCore.exchangesOf ops) a → ∀ x, a.exchange.t4 ≤ x →
        ∃ u : ℚ, u ≤ burstUncertainty roundTrip window +
            holdoverGrowth * (x - a.exchange.t4) ∧
          (d.view.evaluate x).status.uncertaintyNs = (u : WithTop ℚ) ∧
          (leader x ≤ i64Max → |(d.view.mapping.leaderTime x : ℝ) - leader x| ≤ (u : ℝ) + 1) ∧
          ((∀ earlier b, FollowerCore.exchangesOf ops = earlier ++ [b] → ¬ Locks earlier b) →
            (d.view.evaluate x).position =
                (d.view.timeline.at (d.view.mapping.leaderTime x)).1 ∧
              (d.view.timeline.sourceHealth = .healthy →
                u * |(d.view.evaluate x).rate.asF64| ≤ 1000000 →
                (d.view.evaluate x).status.aligned = true))) := by
  have hinv : c.Inv := FollowerCore.Reachable.inv ⟨position, format, policy, before, hc⟩
  have hguarded : d.Guarded := by
    rw [hd, hc]
    refine Machine.run_invariant (P := FollowerCore.Guarded) (fun _ op h => h.step op) ?_ _
    refine Machine.run_invariant (P := FollowerCore.Guarded) (fun _ op h => h.step op) ?_ before
    exact FollowerCore.guarded_new position format hpolicy.1.le
  have hremote : c.view.localClock = false := by
    rw [hc]
    exact Machine.run_invariant (P := fun c : FollowerCore => c.view.localClock = false)
      (fun c op h => (c.step_localClock op).trans h) rfl before
  have hstart : (c.state t.timeline now).1.Acquiring leader [] :=
    FollowerCore.acquiring_of_newSession hinv hremote hconnected hnew
  have hmiddle := hstart.run hleader hlasts hburst.initial hprompt hshort
  obtain ⟨haccepted, -⟩ := hmiddle.mapped hleader hburst hprompt hshort
  have hlast : d = ((Machine.run FollowerCore.step (c.state t.timeline now).1 ops).measurementTimed
      a.exchange a.publicationNs a.processedNs).1 := by
    rw [hd, List.cons_append, Machine.run_cons, Machine.run_append]
    rfl
  obtain ⟨hafter, hsync⟩ := hmiddle.measure hleader hburst hprompt hshort
  generalize Machine.run FollowerCore.step (c.state t.timeline now).1 ops = middle
    at hmiddle haccepted hlast hafter hsync
  rw [← hlast] at hafter hsync
  have hkept := hburst.kept hleader hprompt hshort
  rw [← hafter.estimator] at hkept
  obtain ⟨count, hmapping⟩ := hkept.mapping a (by simp)
  have hconverged : d.estimator.mapping.converged = true ↔
      Locks (FollowerCore.exchangesOf ops) a := by
    rw [hmapping, converged_iff]
  refine ⟨hkept.samples, ?_, fun hlocks x hx => ?_⟩
  · rw [← hconverged, hsync]
    split_ifs with h <;> simp [h]
  · have hsynchronized : d.view.sync = .synchronized := by
      rw [hsync, if_pos (hconverged.mpr hlocks)]
    have hinitialized := hafter.initialized (hconverged.mpr hlocks)
    obtain ⟨u, hu, hbound⟩ := hburst.uncertainty hleader hshort count hx
    rw [← hmapping, ← hafter.inv.mapping] at hu
    have hpublished : (d.view.evaluate x).status.uncertaintyNs = (u : WithTop ℚ) := by
      change (if d.view.localClock then 0 else d.view.mapping.uncertaintyAt x) = _
      rw [hafter.remote]
      exact hu
    refine ⟨u, hbound, hpublished, fun hmax => ?_, fun hfirst => ?_⟩
    · have hreceipt : d.view.mapping.lastSampleNs = a.exchange.t4 := by
        rw [hafter.inv.mapping, hmapping]
        rfl
      obtain ⟨v, hv, herror⟩ := hafter.knows.accurate ((View.initialized_iff _).mp hinitialized) x
        (hreceipt.trans_le hx) hmax
      obtain rfl : v = u := WithTop.coe_injective (hv.symm.trans hu)
      exact herror
    · have hunlocked := hmiddle.unlocked hleader hburst.initial hprompt hshort hfirst
      have hrealigned := FollowerCore.measurementTimed_realigned hunlocked
        (fun hnone => absurd (hnone.symm.trans hmiddle.pinned) (by simp)) haccepted
        a.publicationNs a.processedNs
      have hcorrection : d.view.correctionFrames = 0 := by
        rw [hlast, hrealigned]
        rfl
      have hshown := View.evaluate_of_zero hinitialized (by rw [hsynchronized]; decide)
        hguarded.slew_nonneg hcorrection x
      have hremaining := View.remaining_of_zero hguarded.slew_nonneg hcorrection x
      refine ⟨hshown.1, fun hhealthy hsmall => ?_⟩
      refine hafter.aligned_of_le hleader hburst hprompt hshort (hconverged.mpr hlocks)
        hsynchronized hhealthy ?_
      rw [View.evaluate_alignmentErrorNs hinitialized hpublished, hremaining, abs_zero, zero_div,
        zero_mul, add_zero, WithTop.coe_le_coe]
      exact hsmall

/-- An exchange every 50 ms over 20 µs each way, with a leader five seconds ahead. -/
def lanArrival (i : Nat) : Arrival :=
  ⟨⟨1000000000 + 50000000 * i, 6000020000 + 50000000 * i, 6000020000 + 50000000 * i,
    1000040000 + 50000000 * i⟩, none, 1000040000 + 50000000 * i⟩

theorem sampleTimeline_valid : sampleTimeline.Valid := by decide +kernel

def lanSnapshot : Validated := ⟨sampleTimeline, sampleTimeline_valid⟩

/-- Eleven of them, with a tick before and a snapshot after. -/
def lanOps : List Op :=
  .tick 950000000 3000000000 ::
    ((List.range 11).map fun i =>
      .measurementTimed (lanArrival i).exchange (lanArrival i).publicationNs
        (lanArrival i).processedNs) ++
    [.state lanSnapshot 1510000000]

theorem lanOps_exchanges :
    FollowerCore.exchangesOf lanOps ++ [lanArrival 11] = (List.range 12).map lanArrival := rfl

theorem lanArrival_burst : Burst (fun x : ℝ => x + 5000000000) 40000 550000000
    ((List.range 12).map lanArrival) where
  honest := by
    intro a ha
    obtain ⟨i, -, rfl⟩ := List.mem_map.mp ha
    refine ⟨1000020000 + 50000000 * i, 1000020000 + 50000000 * i, ?_, le_rfl, ?_, ?_, ?_⟩
    all_goals
      simp only [lanArrival, Nat.cast_add, Nat.cast_mul, Nat.cast_ofNat]
      try constructor
    all_goals linarith
  admissible := by decide +kernel
  prompt := by decide +kernel
  ordered := by decide +kernel
  window := by decide +kernel
  bounded := by decide

def lanStart : FollowerCore :=
  Machine.run FollowerCore.step
    (FollowerCore.new (fallback Position.zero FrameFormat.default) CorrectionPolicy.default)
    [.connected]

def lanFollower : FollowerCore :=
  Machine.run FollowerCore.step lanStart
    (.state lanSnapshot 900000000 :: lanOps ++
      [.measurementTimed (lanArrival 11).exchange (lanArrival 11).publicationNs
        (lanArrival 11).processedNs])

/-- Over that path the twelfth exchange locks the clock and sets the output to the trajectory. -/
theorem burst_acquires_of_lan :
    lanFollower.view.sync = .synchronized ∧
      ∀ x : Nat, 1550040000 ≤ x → ∃ u : ℚ,
        u ≤ burstUncertainty 40000 550000000 + holdoverGrowth * (x - 1550040000) ∧
          (lanFollower.view.evaluate x).position =
            (lanFollower.view.timeline.at (lanFollower.view.mapping.leaderTime x)).1 := by
  have hlasts : ∀ op ∈ lanOps, op ≠ .connected ∧ op ≠ .disconnected := by
    intro op hop
    obtain hop | hop := List.mem_append.mp hop
    · obtain rfl | hop := List.mem_cons.mp hop
      · simp
      · obtain ⟨i, -, rfl⟩ := List.mem_map.mp hop
        simp
    · rw [List.mem_singleton.mp hop]
      simp
  obtain ⟨-, hsync, hknown⟩ := burst_acquires (d := lanFollower) (leaderClock_add 5000000000)
    Position.zero FrameFormat.default
    (show CorrectionPolicy.Admitted CorrectionPolicy.default by decide +kernel) [.connected] lanOps
    lanSnapshot 900000000 (lanArrival 11) (c := lanStart) rfl rfl (by decide +kernel) hlasts
    (lanOps_exchanges ▸ lanArrival_burst) (by norm_num [promptNs]) (by norm_num [burstNs]) rfl
  have hlocks : Locks (FollowerCore.exchangesOf lanOps) (lanArrival 11) := by decide +kernel
  have heleven : (FollowerCore.exchangesOf lanOps).length = 11 := by decide +kernel
  refine ⟨hsync.mpr hlocks, fun x hx => ?_⟩
  obtain ⟨u, hu, -, -, hacquired⟩ := hknown hlocks x hx
  refine ⟨u, by simpa [lanArrival] using hu, (hacquired ?_).1⟩
  intro earlier b hearlier hlocked
  have hlength := congrArg List.length hearlier
  have hmany := hlocked.1
  rw [List.length_append] at hlength
  simp only [List.length_singleton] at hlength
  omega

end Tidkod
