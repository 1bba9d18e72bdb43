import Mathlib.Tactic
import Tidkod.Protocol.Reacquisition

/-!
What the representation of an estimator says about the observations behind it. The
retained and the quarantined samples, the diagnostic trace and the count of accepted
observations are each bounded in a way of their own, and each of them is compared here
with what an observer of the run has noted down.
-/

namespace Tidkod

namespace ClockEstimator

/-- The bounds and the order of what is retained and what is quarantined. -/
structure Layout (c : ClockEstimator) : Prop where
  samples_le : c.samples.length ≤ 128
  samples : c.samples.Pairwise (fun s t => s.localNs < t.localNs)
  recent : ∀ s ∈ c.samples, ∃ last ∈ c.lastObserved, |last - s.localNs| ≤ historyNs
  recovery_le : c.recovery.length ≤ 16
  recovery : c.recovery.Pairwise (fun s t => s.localNs < t.localNs)
  close : ∀ s ∈ c.recovery, ∀ t ∈ c.recovery, |s.localNs - t.localNs| ≤ 5000000000
  newer : ∀ s ∈ c.samples, ∀ r ∈ c.recovery, s.localNs < r.localNs

/-- The entry of the trace that an arrival adds. -/
def observation (c : ClockEstimator) (a : Arrival) : ClockObservation where
  exchange := a.exchange
  accepted := (c.feed a).2
  publicationNs := a.publicationNs
  processingDelayNs := a.processedNs - a.exchange.t4
  mapping := (c.feed a).1.mapping

/-- All observations of a history, rejected ones included, in arrival order. -/
def observations (history : List Arrival) : List ClockObservation :=
  Machine.record feed (fun noted c a => noted ++ [c.observation a]) [] default history

/-- The acceptances since the history was last replaced or fully expired, and the
observations before them that came with a promoted quarantine. -/
structure Tally where
  promoted : Nat
  acceptances : Nat
  deriving DecidableEq

/-- An arrival is noted down: first the expiry of the whole history, then an acceptance,
either out of quarantine or next to what is retained. -/
def noteAcceptance (tally : Tally) (c : ClockEstimator) (a : Arrival) : Tally :=
  let since : Tally :=
    if c.Valid a.exchange ∧ (c.arrived a.exchange).samples = [] then ⟨0, 0⟩ else tally
  if (c.feed a).2 then
    if c.Outlier a.exchange then ⟨(c.quarantine a.exchange.sample).length - 1, 1⟩
    else { since with acceptances := since.acceptances + 1 }
  else since

def tallied (history : List Arrival) : Tally :=
  Machine.record feed noteAcceptance ⟨0, 0⟩ default history

/-- The accepted observations agree with what has been noted down, and as many are
counted as are retained at least. -/
structure Counted (tally : Tally) (c : ClockEstimator) : Prop where
  count : c.mapping.acceptedObservations = min (tally.promoted + tally.acceptances) u64Max
  retained : c.samples.length ≤ tally.promoted + tally.acceptances

/-- The mapping after an acceptance describes the samples it was fitted to. -/
structure Describes (c : ClockEstimator) : Prop where
  evidence : ∃ ev ∈ c.mapping.evidence, ev.samples = c.samples.length
  retained_pos : 1 ≤ c.samples.length
  retained_le : c.samples.length ≤ c.mapping.acceptedObservations
  converged : c.mapping.converged = true ↔
    12 ≤ c.samples.length ∧ ∃ first ∈ c.samples.head?, ∃ last ∈ c.samples.getLast?,
      500000000 ≤ last.localNs - first.localNs

/-- What an arrival does, with the count that an acceptance leaves. -/
inductive Handled (c : ClockEstimator) (e : Exchange) : ClockEstimator × Bool → Prop where
  | invalid (h : ¬ c.Valid e) : Handled c e (c, false)
  | quarantined (h : c.Outlier e) :
      Handled c e ({ c.arrived e with recovery := c.quarantine e.sample }, false)
  | promoted (h : c.Outlier e) :
      Handled c e
        (refit { c.arrived e with samples := c.quarantine e.sample, recovery := [] } e
          (c.quarantine e.sample).length, true)
  | extended (hvalid : c.Valid e) (h : ¬ c.Outlier e) :
      Handled c e
        (refit { c.arrived e with
            samples := (c.arrived e).samples ++ [e.sample], recovery := [] } e
          (if (c.arrived e).samples.isEmpty then 1
            else min (c.mapping.acceptedObservations + 1) u64Max), true)

theorem observeInner_handled (c : ClockEstimator) (e : Exchange) :
    Handled c e (c.observeInner e) := by
  by_cases hvalid : c.Valid e
  · rw [observeInner_of_new hvalid.1 hvalid.2, decideSample]
    by_cases hrejected : (rejectedDelay (c.arrived e).samples e.sample ||
        (c.arrived e).rejectedOffset e) = true
    · have houtlier : c.Outlier e := ⟨hvalid.1, hvalid.2, hrejected⟩
      simp only [hrejected, if_true]
      split_ifs
      · exact .promoted houtlier
      · exact .quarantined houtlier
    · have hordinary : ¬ c.Outlier e := fun houtlier => hrejected houtlier.rejected
      simp only [if_neg hrejected]
      exact .extended hvalid hordinary
  · rw [observeInner_of_not_valid hvalid]
    exact .invalid hvalid

section Layout

variable {c : ClockEstimator} {e : Exchange}

/-- What is left after expiry is no older than the history bound. -/
theorem expire_recent {samples : List Sample} {localNs : ℚ}
    (h : samples.Pairwise (fun s t => s.localNs < t.localNs)) :
    ∀ s ∈ expire samples localNs, localNs - s.localNs ≤ historyNs := by
  induction samples with
  | nil => exact fun s hs => absurd hs List.not_mem_nil
  | cons oldest rest ih =>
      obtain ⟨holdest, hrest⟩ := List.pairwise_cons.mp h
      by_cases hexpired : historyNs < localNs - oldest.localNs
      · rw [expire, List.dropWhile_cons_of_pos (by simpa using hexpired)]
        exact ih hrest
      · rw [expire, List.dropWhile_cons_of_neg (by simpa using hexpired)]
        intro s hs
        rcases List.mem_cons.mp hs with rfl | hs
        · exact not_lt.mp hexpired
        · linarith [holdest s hs, not_lt.mp hexpired]

/-- The members of the quarantine lie within 5 s before the newest one. -/
theorem Chronological.quarantine_close (h : c.Chronological) (hvalid : c.Valid e) :
    ∀ r ∈ c.quarantine e.sample,
      r.localNs ≤ e.midpoint ∧ e.midpoint - r.localNs ≤ 5000000000 := by
  intro r hr
  have hordered : (c.quarantine e.sample).Pairwise (fun s t => s.localNs < t.localNs) :=
    h.quarantine hvalid.2
  constructor
  · rcases mem_quarantine hr with hold | rfl
    · obtain ⟨last, hlast, hle⟩ := h.past.2 r hold
      exact hle.trans (hvalid.2 last hlast).le
    · exact le_rfl
  · obtain ⟨oldest, rest, hquarantine⟩ := List.exists_cons_of_ne_nil (List.ne_nil_of_mem hr)
    have helapsed := h.quarantine_elapsed (e := e) oldest (by rw [hquarantine]; rfl)
    rw [hquarantine] at hr hordered
    rcases List.mem_cons.mp hr with rfl | hlater
    · exact helapsed
    · linarith [(List.pairwise_cons.mp hordered).1 r hlater]

/-- What an arrival leaves of the retained samples is before it and within the bound. -/
theorem Chronological.arrived_recent (h : c.Chronological) (hvalid : c.Valid e) :
    ∀ s ∈ (c.arrived e).samples,
      s.localNs < e.midpoint ∧ |e.midpoint - s.localNs| ≤ historyNs := by
  intro s hs
  obtain ⟨last, hlast, hle⟩ := h.past.1 s ((expire_suffix _ _).subset hs)
  have hbefore : s.localNs < e.midpoint := hle.trans_lt (hvalid.2 last hlast)
  refine ⟨hbefore, ?_⟩
  rw [abs_of_pos (sub_pos.mpr hbefore)]
  exact expire_recent h.samples s hs

theorem Layout.observeInner (h : c.Layout) (hchronological : c.Chronological) (e : Exchange) :
    (c.observeInner e).1.Layout := by
  have hnext := hchronological.observeInner e
  have hhandled := observeInner_handled c e
  generalize c.observeInner e = result at hhandled hnext ⊢
  cases hhandled with
  | invalid => exact h
  | quarantined houtlier =>
      have hrecent := hchronological.arrived_recent houtlier.valid
      have hclose := hchronological.quarantine_close houtlier.valid
      refine ⟨?_, hnext.samples, ?_, length_quarantine_le c e.sample, hnext.recovery, ?_, ?_⟩
      · exact (expire_suffix _ _).length_le.trans h.samples_le
      · exact fun s hs => ⟨e.midpoint, rfl, (hrecent s hs).2⟩
      · intro s hs t ht
        obtain ⟨hs, hs'⟩ := hclose s hs
        obtain ⟨ht, ht'⟩ := hclose t ht
        exact abs_le.mpr ⟨by linarith, by linarith⟩
      · intro s hs r hr
        rcases mem_quarantine hr with hold | rfl
        · exact h.newer s ((expire_suffix _ _).subset hs) r hold
        · exact (hrecent s hs).1
  | promoted houtlier =>
      have hclose := hchronological.quarantine_close houtlier.valid
      refine ⟨?_, hnext.samples, ?_, Nat.zero_le 16, hnext.recovery, ?_, ?_⟩
      · rw [refit_samples, length_keepLast]
        exact min_le_left _ _
      · intro s hs
        obtain ⟨hle, hclose⟩ := hclose s ((keepLast_suffix 128 _).subset hs)
        refine ⟨e.midpoint, rfl, ?_⟩
        rw [abs_of_nonneg (sub_nonneg.mpr hle)]
        exact hclose.trans (by norm_num [historyNs])
      · exact fun s hs => absurd hs List.not_mem_nil
      · exact fun s hs r hr => absurd hr List.not_mem_nil
  | extended hvalid =>
      have hrecent := hchronological.arrived_recent hvalid
      refine ⟨?_, hnext.samples, ?_, Nat.zero_le 16, hnext.recovery, ?_, ?_⟩
      · rw [refit_samples, length_keepLast]
        exact min_le_left _ _
      · intro s hs
        refine ⟨e.midpoint, rfl, ?_⟩
        rcases List.mem_append.mp ((keepLast_suffix 128 _).subset hs) with hold | hlast
        · exact (hrecent s hold).2
        · rw [List.mem_singleton.mp hlast]
          norm_num [Exchange.sample, historyNs]
      · exact fun s hs => absurd hs List.not_mem_nil
      · exact fun s hs r hr => absurd hr List.not_mem_nil

theorem layout_default : Layout default where
  samples_le := Nat.zero_le 128
  samples := List.Pairwise.nil
  recent := fun _ hs => absurd hs List.not_mem_nil
  recovery_le := Nat.zero_le 16
  recovery := List.Pairwise.nil
  close := fun _ hs => absurd hs List.not_mem_nil
  newer := fun _ hs => absurd hs List.not_mem_nil

theorem Layout.feed (h : c.Layout) (hchronological : c.Chronological) (a : Arrival) :
    (c.feed a).1.Layout := by
  have hnext := h.observeInner hchronological a.exchange
  exact ⟨hnext.1, hnext.2, hnext.3, hnext.4, hnext.5, hnext.6, hnext.7⟩

theorem layout_run (history : List Arrival) : (Machine.run feed default history).Layout := by
  apply And.right (a := (Machine.run feed default history).Chronological)
  refine Machine.run_invariant (P := fun c : ClockEstimator => c.Chronological ∧ c.Layout) ?_
    ⟨chronological_default, layout_default⟩ history
  rintro c a ⟨hchronological, hlayout⟩
  exact ⟨hchronological.feed a, hlayout.feed hchronological a⟩

end Layout

section Trace

variable {c : ClockEstimator}

/-- The trace after one more arrival. -/
theorem feed_trace (h : c.trace.length ≤ 128) (a : Arrival) :
    (c.feed a).1.trace = keepLast 128 (c.trace ++ [c.observation a]) := by
  have hsame : (c.observeInner a.exchange).1.trace = c.trace := by
    have hhandled := observeInner_handled c a.exchange
    generalize c.observeInner a.exchange = result at hhandled ⊢
    cases hhandled <;> rfl
  have hfeed : (c.feed a).1.trace =
      (if c.trace.length = 128 then c.trace.drop 1 else c.trace) ++ [c.observation a] := by
    simp only [← hsame]
    rfl
  rw [hfeed, keepLast, List.length_append, List.length_singleton]
  split_ifs with hfull
  · rw [hfull, List.drop_append_of_le_length (by omega)]
  · rw [Nat.sub_eq_zero_of_le (by omega), List.drop_zero]

theorem trace_run (history : List Arrival) :
    (Machine.run feed default history).trace = keepLast 128 (observations history) := by
  induction history using List.reverseRecOn with
  | nil => exact (keepLast_of_length_le (Nat.zero_le 128)).symm
  | append_singleton history a ih =>
      have hbound : (Machine.run feed default history).trace.length ≤ 128 := by
        rw [ih, length_keepLast]
        exact min_le_left _ _
      rw [observations, Machine.record_append, Machine.run_append]
      change ((Machine.run feed default history).feed a).1.trace = _
      rw [feed_trace hbound, ih, keepLast_keepLast_append (by decide)]
      rfl

/-- There is one observation for each arrival. -/
theorem observations_exchange (history : List Arrival) :
    (observations history).map ClockObservation.exchange = history.map Arrival.exchange := by
  induction history using List.reverseRecOn with
  | nil => rfl
  | append_singleton history a ih =>
      rw [List.map_append, ← ih, observations, Machine.record_append]
      exact List.map_append

end Trace

section Counted

variable {c : ClockEstimator} {tally : Tally} {a : Arrival}

/-- With nothing retained there are no outliers. -/
theorem Outlier.arrived_ne_nil {e : Exchange} (h : c.Outlier e) : (c.arrived e).samples ≠ [] := by
  intro hnil
  have hrejected := h.rejected
  rw [rejectedDelay, rejectedOffset, hnil] at hrejected
  simp at hrejected

/-- Expiry of the whole history restarts the count with the acceptance that follows. -/
theorem noteAcceptance_of_extended (haccepted : (c.feed a).2 = true) (hvalid : c.Valid a.exchange)
    (h : ¬ c.Outlier a.exchange) :
    noteAcceptance tally c a =
      if (c.arrived a.exchange).samples = [] then ⟨0, 1⟩
      else ⟨tally.promoted, tally.acceptances + 1⟩ := by
  unfold noteAcceptance
  simp only [haccepted, if_true, if_neg h, hvalid, true_and]
  split_ifs <;> rfl

theorem noteAcceptance_of_outlier (h : c.Outlier a.exchange) :
    noteAcceptance tally c a =
      if (c.feed a).2 then ⟨(c.quarantine a.exchange.sample).length - 1, 1⟩ else tally := by
  unfold noteAcceptance
  simp only [h, h.arrived_ne_nil, and_false, if_false, if_true]

theorem noteAcceptance_of_invalid (h : ¬ c.Valid a.exchange) :
    noteAcceptance tally c a = tally := by
  have hrejected : (c.feed a).2 = false := congrArg Prod.snd (observeInner_of_not_valid h)
  unfold noteAcceptance
  simp only [h, hrejected, false_and, if_false, Bool.false_eq_true]

theorem length_quarantine_pos (c : ClockEstimator) (s : Sample) : 1 ≤ (c.quarantine s).length := by
  have hne : c.quarantine s ≠ [] := by
    intro hnil
    have hlast := getLast_quarantine c s
    rw [hnil] at hlast
    exact absurd hlast (by simp)
  exact List.length_pos_iff.mpr hne

theorem Counted.feed (h : Counted tally c) (a : Arrival) :
    Counted (noteAcceptance tally c a) (c.feed a).1 := by
  suffices hinner : Counted (noteAcceptance tally c a) (c.observeInner a.exchange).1 from
    ⟨hinner.count, hinner.retained⟩
  have hexpired : (c.arrived a.exchange).samples.length ≤ c.samples.length :=
    (expire_suffix c.samples a.exchange.midpoint).length_le
  have hfeed : (c.feed a).2 = (c.observeInner a.exchange).2 := rfl
  have hcount := h.count
  have hretained := h.retained
  have hhandled := observeInner_handled c a.exchange
  generalize c.observeInner a.exchange = result at hhandled hfeed ⊢
  cases hhandled with
  | invalid hinvalid =>
      rw [noteAcceptance_of_invalid hinvalid]
      exact h
  | quarantined houtlier =>
      rw [noteAcceptance_of_outlier houtlier, hfeed, if_neg Bool.false_ne_true]
      exact ⟨hcount, hexpired.trans hretained⟩
  | promoted houtlier =>
      have hpos := length_quarantine_pos c a.exchange.sample
      have hle := length_quarantine_le c a.exchange.sample
      rw [noteAcceptance_of_outlier houtlier, hfeed, if_pos rfl]
      refine ⟨?_, ?_⟩
      · change (c.quarantine a.exchange.sample).length = min _ u64Max
        simp only [u64Max]
        omega
      · rw [refit_samples, length_keepLast]
        dsimp only
        omega
  | extended hvalid hordinary =>
      rw [noteAcceptance_of_extended hfeed hvalid hordinary]
      have hlength : (keepLast 128 ((c.arrived a.exchange).samples ++ [a.exchange.sample])).length ≤
          (c.arrived a.exchange).samples.length + 1 :=
        (keepLast_suffix 128 _).length_le.trans List.length_append.le
      by_cases hnil : (c.arrived a.exchange).samples = []
      · rw [if_pos hnil]
        rw [hnil] at hlength
        refine ⟨?_, ?_⟩
        · simp [hnil, fit, u64Max]
        · simpa [hnil] using hlength
      · rw [if_neg hnil]
        refine ⟨?_, ?_⟩
        · have hkept : (c.arrived a.exchange).samples.isEmpty = false := by simpa using hnil
          rw [refit_mapping]
          simp only [hkept, fit, Bool.false_eq_true, if_false, hcount]
          omega
        · rw [refit_samples]
          dsimp only
          omega

theorem counted_default : Counted ⟨0, 0⟩ default where
  count := rfl
  retained := Nat.zero_le 0

theorem counted_run (history : List Arrival) :
    Counted (tallied history) (Machine.run feed default history) := by
  induction history using List.reverseRecOn with
  | nil => exact counted_default
  | append_singleton history a ih =>
      rw [tallied, Machine.record_append, Machine.run_append]
      exact ih.feed a

/-- An acceptance fits a mapping to what is retained, and describes it. -/
theorem Counted.describes (h : Counted tally c) (hlayout : (c.feed a).1.Layout)
    (haccepted : (c.feed a).2 = true) : (c.feed a).1.Describes := by
  obtain ⟨-, hmem, -, count, hmapping⟩ := observeInner_fit_of_accepted haccepted
  have hmem' : a.exchange.sample ∈ (c.feed a).1.samples := hmem
  have hmapping' : (c.feed a).1.mapping =
      fit (c.feed a).1.samples a.exchange c.mapping.drift count := hmapping
  have hnext := h.feed a
  have hlength : (c.feed a).1.samples.length ≤ u64Max := hlayout.samples_le.trans (by decide)
  refine ⟨?_, List.length_pos_of_mem hmem', ?_, ?_⟩
  · rw [hmapping']
    exact ⟨_, rfl, rfl⟩
  · rw [hnext.count]
    exact le_min hnext.retained hlength
  · obtain ⟨first, hfirst⟩ : ∃ first, (c.feed a).1.samples.head? = some first :=
      Option.ne_none_iff_exists'.mp (by simpa using List.ne_nil_of_mem hmem')
    obtain ⟨last, hlast⟩ : ∃ last, (c.feed a).1.samples.getLast? = some last :=
      Option.ne_none_iff_exists'.mp (by simpa using List.ne_nil_of_mem hmem')
    rw [hmapping']
    simp [fit, hfirst, hlast]

end Counted

/-- The representation invariant: the bounds and the order of the samples, the trace as
the last 128 of all observations, and, at every acceptance, what the mapping says about
the samples and how many observations it counts. -/
theorem representation (history : List Arrival) :
    (Machine.run feed default history).Layout ∧
    ((Machine.run feed default history).trace = keepLast 128 (observations history) ∧
      (observations history).map ClockObservation.exchange = history.map Arrival.exchange) ∧
    ∀ a, ((Machine.run feed default history).feed a).2 = true →
      ((Machine.run feed default history).feed a).1.Describes ∧
      ((Machine.run feed default history).feed a).1.mapping.acceptedObservations =
        min ((tallied (history ++ [a])).promoted + (tallied (history ++ [a])).acceptances)
          u64Max := by
  have hlayout := layout_run history
  refine ⟨hlayout, ⟨trace_run history, observations_exchange history⟩, fun a haccepted => ?_⟩
  constructor
  · refine (counted_run history).describes ?_ haccepted
    exact hlayout.feed (chronological_run history) a
  · have hnext := (counted_run (history ++ [a])).count
    rwa [Machine.run_append] at hnext

end ClockEstimator

end Tidkod
