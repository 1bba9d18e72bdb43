import Mathlib.Tactic
import Tidkod.Lib.LeastSquares
import Tidkod.Protocol.ClockUncertainty

/-!
The fitted mapping is a least-squares optimum. Of the retained samples the half with
the lowest delay is fitted, and the line is the best one for them whose drift is
allowed: within ±500 ppm when they support a drift of their own, otherwise the drift
the mapping had.
-/

namespace Tidkod

open LeastSquares

namespace ClockEstimator

/-- Samples are kept in the order of their midpoints, none later than the last one
observed. -/
structure Chronological (c : ClockEstimator) : Prop where
  samples : c.samples.Pairwise (fun a b => a.localNs < b.localNs)
  recovery : c.recovery.Pairwise (fun a b => a.localNs < b.localNs)
  past : c.Past

theorem chronological_default : Chronological default where
  samples := List.Pairwise.nil
  recovery := List.Pairwise.nil
  past := retains_default _

theorem pairwise_keepLast_append {samples : List Sample} {s : Sample}
    (h : samples.Pairwise (fun a b => a.localNs < b.localNs))
    (hlast : ∀ r ∈ samples, r.localNs < s.localNs) (n : Nat) :
    (keepLast n (samples ++ [s])).Pairwise (fun a b => a.localNs < b.localNs) := by
  apply List.Pairwise.sublist (keepLast_suffix n _).sublist
  rw [List.pairwise_append]
  refine ⟨h, List.pairwise_singleton _ _, ?_⟩
  intro r hr t ht
  rw [List.mem_singleton.mp ht]
  exact hlast r hr

theorem Chronological.quarantine {c : ClockEstimator} (h : c.Chronological) {e : Exchange}
    (hnew : ∀ last ∈ c.lastObserved, last < e.midpoint) :
    ((c.arrived e).quarantine e.sample).Pairwise (fun a b => a.localNs < b.localNs) := by
  have hlast : ∀ r ∈ c.recovery, r.localNs < e.sample.localNs := by
    intro r hr
    obtain ⟨last, hlast, hle⟩ := h.past.2 r hr
    exact hle.trans_lt (hnew last hlast)
  have hcases : (c.arrived e).quarantine e.sample = keepLast 16 (c.recovery ++ [e.sample]) ∨
      (c.arrived e).quarantine e.sample = keepLast 16 ([] ++ [e.sample]) := by
    unfold ClockEstimator.quarantine
    split
    · exact Or.inl rfl
    · split_ifs
      · exact Or.inl rfl
      · exact Or.inr rfl
  rcases hcases with hkept | hrestarted
  · rw [hkept]
    exact pairwise_keepLast_append h.recovery hlast 16
  · rw [hrestarted]
    exact pairwise_keepLast_append List.Pairwise.nil (by simp) 16

theorem Chronological.observeInner {c : ClockEstimator} (h : c.Chronological) (e : Exchange) :
    (c.observeInner e).1.Chronological := by
  have hpast := h.past.observeInner e
  have hsamples : (c.arrived e).samples.Pairwise (fun a b => a.localNs < b.localNs) :=
    h.samples.sublist (expire_suffix _ _).sublist
  have hlast (hnew : ∀ last ∈ c.lastObserved, last < e.midpoint) :
      ∀ r ∈ (c.arrived e).samples, r.localNs < e.sample.localNs := by
    intro r hr
    obtain ⟨last, hlast, hle⟩ := h.past.1 r ((expire_suffix _ _).subset hr)
    exact hle.trans_lt (hnew last hlast)
  have houtcome := observeInner_outcome c e
  generalize c.observeInner e = result at houtcome hpast ⊢
  cases houtcome with
  | ignored => exact h
  | quarantined _ hnew => exact ⟨hsamples, h.quarantine hnew, hpast⟩
  | promoted _ hnew =>
      exact ⟨(h.quarantine hnew).sublist (keepLast_suffix 128 _).sublist, List.Pairwise.nil, hpast⟩
  | accepted _ hnew =>
      exact ⟨pairwise_keepLast_append hsamples (hlast hnew) 128, List.Pairwise.nil, hpast⟩

theorem Chronological.feed {c : ClockEstimator} (h : c.Chronological) (a : Arrival) :
    (c.feed a).1.Chronological where
  samples := (h.observeInner a.exchange).samples
  recovery := (h.observeInner a.exchange).recovery
  past := (h.observeInner a.exchange).past

theorem chronological_run (history : List Arrival) :
    (Machine.run feed default history).Chronological :=
  Machine.run_invariant (P := Chronological) (fun _ a h => Chronological.feed h a)
    chronological_default history

end ClockEstimator

/-- The members of a history that are fitted: half of them, at least four where there
are as many, with the lowest delays, of equal delays the newest. -/
structure Lowest (samples selected : List Sample) : Prop where
  length_eq : selected.length = min (max 4 (samples.length / 2)) samples.length
  before : ∃ rest, samples.Perm (selected ++ rest) ∧ ∀ s ∈ selected, ∀ r ∈ rest, s.before r

theorem Sample.before_total (a b : Sample) : a.before b ∨ b.before a := by
  unfold Sample.before
  rcases lt_trichotomy a.delay b.delay with hlt | heq | hgt
  · exact Or.inl (Or.inl hlt)
  · rcases le_total b.localNs a.localNs with hnewer | holder
    · exact Or.inl (Or.inr ⟨heq, hnewer⟩)
    · exact Or.inr (Or.inr ⟨heq.symm, holder⟩)
  · exact Or.inr (Or.inl hgt)

theorem Sample.before_trans {a b c : Sample} (hab : a.before b) (hbc : b.before c) :
    a.before c := by
  unfold Sample.before at *
  rcases hab with hlt | ⟨heq, hnewer⟩
  · rcases hbc with hlt' | ⟨heq', -⟩
    · exact Or.inl (hlt.trans hlt')
    · exact Or.inl (heq' ▸ hlt)
  · rcases hbc with hlt' | ⟨heq', hnewer'⟩
    · exact Or.inl (heq ▸ hlt')
    · exact Or.inr ⟨heq.trans heq', hnewer'.trans hnewer⟩

/-- Two samples that come before each other have one midpoint. -/
theorem Sample.localNs_eq_of_before {a b : Sample} (hab : a.before b) (hba : b.before a) :
    a.localNs = b.localNs := by
  unfold Sample.before at hab hba
  rcases hab with hlt | ⟨heq, hnewer⟩
  · rcases hba with hlt' | ⟨heq, -⟩
    · exact absurd hlt hlt'.asymm
    · exact absurd hlt heq.not_gt
  · rcases hba with hlt' | ⟨-, holder⟩
    · exact absurd hlt' heq.not_gt
    · exact le_antisymm holder hnewer

instance : Std.Total Sample.before := ⟨Sample.before_total⟩

instance : IsTrans Sample Sample.before := ⟨fun _ _ _ => Sample.before_trans⟩

theorem selectSamples_lowest (samples : List Sample) :
    Lowest samples (selectSamples samples) where
  length_eq := by
    simp only [selectSamples, List.length_take, List.length_insertionSort]
    omega
  before := by
    have hsorted := List.pairwise_insertionSort Sample.before samples
    have hperm := List.perm_insertionSort Sample.before samples
    refine ⟨(samples.insertionSort Sample.before).drop
      (min (max (samples.length / 2) 4) samples.length), ?_, ?_⟩
    · rw [selectSamples, List.take_append_drop]
      exact hperm.symm
    · rw [← List.take_append_drop (min (max (samples.length / 2) 4) samples.length)
        (samples.insertionSort Sample.before)] at hsorted
      exact (List.pairwise_append.mp hsorted).2.2

/-- Samples with different midpoints have one lowest half. -/
theorem Lowest.perm {samples selected : List Sample} (h : Lowest samples selected)
    (hsamples : samples.Pairwise (fun a b => a.localNs < b.localNs)) :
    selected.Perm (selectSamples samples) := by
  obtain ⟨rest, hperm, hbefore⟩ := h.before
  have hsame (a b : Sample) (ha : a ∈ samples) (hb : b ∈ samples) (hab : a.before b)
      (hba : b.before a) : a = b := by
    have hdistinct : (samples.map Sample.localNs).Nodup :=
      List.pairwise_map.mpr (hsamples.imp (fun h => h.ne))
    exact List.inj_on_of_nodup_map hdistinct ha hb (Sample.localNs_eq_of_before hab hba)
  have hsorted : (selected.insertionSort Sample.before ++
      rest.insertionSort Sample.before).Pairwise Sample.before := by
    rw [List.pairwise_append]
    refine ⟨List.pairwise_insertionSort _ _, List.pairwise_insertionSort _ _, ?_⟩
    intro s hs r hr
    exact hbefore s ((List.mem_insertionSort _).mp hs) r ((List.mem_insertionSort _).mp hr)
  have hparts : (selected.insertionSort Sample.before ++
      rest.insertionSort Sample.before).Perm samples :=
    ((List.perm_insertionSort _ _).append (List.perm_insertionSort _ _)).trans hperm.symm
  have heq : selected.insertionSort Sample.before ++ rest.insertionSort Sample.before =
      samples.insertionSort Sample.before := by
    apply List.Perm.eq_of_pairwise ?_ hsorted (List.pairwise_insertionSort _ _)
      (hparts.trans (List.perm_insertionSort _ _).symm)
    intro a b ha hb
    exact hsame a b (hparts.subset ha) ((List.mem_insertionSort _).mp hb)
  have hlength : (selected.insertionSort Sample.before).length =
      min (max (samples.length / 2) 4) samples.length := by
    rw [List.length_insertionSort, h.length_eq, max_comm]
  rw [selectSamples, ← heq, ← hlength, List.take_left]
  exact (List.perm_insertionSort _ _).symm

/-- Eight samples spanning two seconds support a drift of their own. -/
def Supported (selected : List Sample) : Prop :=
  8 ≤ selected.length ∧ ∃ s ∈ selected, ∃ t ∈ selected, 2000000000 ≤ t.localNs - s.localNs

/-- Squared distance of the samples from the line with a drift through an offset at
`localNs`. -/
def fitError (selected : List Sample) (localNs offset drift : ℚ) : ℚ :=
  (selected.map (fun s => (s.offset - offset - drift * (s.localNs - localNs)) ^ 2)).sum

/-- The samples lie on that line. -/
def OnLine (selected : List Sample) (localNs offset drift : ℚ) : Prop :=
  ∀ s ∈ selected, s.offset = offset + drift * (s.localNs - localNs)

theorem support_iff {selected : List Sample} (h : selected ≠ []) (span : ℚ) :
    span ≤ (foldMax (selected.map Sample.localNs)).unbotD 0 -
        (foldMin (selected.map Sample.localNs)).untopD 0 ↔
      ∃ s ∈ selected, ∃ t ∈ selected, span ≤ t.localNs - s.localNs := by
  have hne : selected.map Sample.localNs ≠ [] := by simpa using h
  obtain ⟨first, hfirst, hmin, hleast⟩ := foldMin_spec hne
  obtain ⟨last, hlast, hmax, hgreatest⟩ := foldMax_spec hne
  rw [hmin, hmax, WithTop.untopD_coe, WithBot.unbotD_coe]
  constructor
  · intro hspan
    obtain ⟨s, hs, rfl⟩ := List.mem_map.mp hfirst
    obtain ⟨t, ht, rfl⟩ := List.mem_map.mp hlast
    exact ⟨s, hs, t, ht, hspan⟩
  · rintro ⟨s, hs, t, ht, hspan⟩
    have hs := hleast _ (List.mem_map_of_mem hs)
    have ht := hgreatest _ (List.mem_map_of_mem ht)
    linarith

namespace ClockEstimator

variable {selected : List Sample} {localNs previous : ℚ}

theorem spread_pos_of_supported (localNs : ℚ) (h : Supported selected) :
    0 < spread (fun s => s.localNs - localNs) selected := by
  obtain ⟨-, s, hs, t, ht, hspan⟩ := h
  apply spread_pos hs ht
  intro heq
  have : s.localNs = t.localNs := sub_left_inj.mp heq
  linarith

theorem fitDrift_of_supported (h : Supported selected) :
    fitDrift selected localNs previous =
      max (-maxDrift)
        (min (covariation (fun s => s.localNs - localNs) Sample.offset selected /
          spread (fun s => s.localNs - localNs) selected) maxDrift) := by
  have hspread := spread_pos_of_supported localNs h
  have hne : selected ≠ [] := List.ne_nil_of_length_pos (by have := h.1; omega)
  exact if_pos ⟨h.1, (support_iff hne _).mpr h.2, hspread⟩

theorem fitDrift_of_not_supported (hne : selected ≠ []) (h : ¬ Supported selected) :
    fitDrift selected localNs previous = previous := by
  apply if_neg
  rintro ⟨hcount, hspan, -⟩
  exact h ⟨hcount, (support_iff hne _).mp hspan⟩

/-- The fitted line is the best of those with an allowed drift. -/
theorem fitError_fit_le (hne : selected ≠ []) (localNs offset : ℚ) {drift : ℚ}
    (hdrift : |drift| ≤ maxDrift) (hallowed : Supported selected ∨ drift = previous) :
    fitError selected localNs
        (fitOffset selected localNs (fitDrift selected localNs previous))
        (fitDrift selected localNs previous) ≤
      fitError selected localNs offset drift := by
  obtain ⟨hlo, hhi⟩ := abs_le.mp hdrift
  by_cases hsupported : Supported selected
  · rw [fitDrift_of_supported hsupported]
    exact squaredError_clamp_le hne (spread_pos_of_supported _ hsupported) hlo hhi offset
  · rw [fitDrift_of_not_supported hne hsupported, ← hallowed.resolve_left hsupported]
    exact squaredError_mean_le hne offset drift

end ClockEstimator

/-- A mapping is the best fit to samples: its drift is an allowed one, no line with an
allowed drift is closer, and it goes through all samples when such a line does. Every
drift within ±500 ppm is allowed when the samples support one, and only the previous
drift otherwise. -/
structure BestFit (selected : List Sample) (localNs previous : ℚ) (m : ClockMapping) :
    Prop where
  drift_le : |m.drift| ≤ maxDrift
  carried : ¬ Supported selected → m.drift = previous
  least : ∀ offset drift, |drift| ≤ maxDrift → (Supported selected ∨ drift = previous) →
    fitError selected localNs m.offsetNs m.drift ≤ fitError selected localNs offset drift
  exact_line : ∀ offset drift, |drift| ≤ maxDrift → (Supported selected ∨ drift = previous) →
    OnLine selected localNs offset drift → OnLine selected localNs m.offsetNs m.drift

theorem fit_bestFit {samples : List Sample} (hne : samples ≠ []) (e : Exchange) {previous : ℚ}
    (hprevious : |previous| ≤ maxDrift) (count : Nat) :
    BestFit (selectSamples samples) e.midpoint previous
      (ClockEstimator.fit samples e previous count) where
  drift_le := ClockEstimator.abs_fitDrift_le _ _ hprevious
  carried := ClockEstimator.fitDrift_of_not_supported (selectSamples_ne_nil hne)
  least := fun offset _ =>
    ClockEstimator.fitError_fit_le (selectSamples_ne_nil hne) e.midpoint offset
  exact_line := by
    intro offset drift hdrift hallowed hline
    have hleast := ClockEstimator.fitError_fit_le (selectSamples_ne_nil hne) e.midpoint offset
      hdrift hallowed
    have hzero : fitError (selectSamples samples) e.midpoint offset drift = 0 :=
      (squaredError_eq_zero_iff offset drift).mpr hline
    rw [hzero] at hleast
    exact (squaredError_eq_zero_iff _ _).mp
      (le_antisymm hleast (squaredError_nonneg _ _ _ _ _))

/-- In every state that observations can produce the drift is within ±500 ppm, and an
accepted observation fits the lowest-delay half of the retained samples at best. -/
theorem fit_optimal (history : List Arrival) (a : Arrival)
    (haccepted : ((Machine.run ClockEstimator.feed ClockEstimator.default history).feed a).2 =
      true) :
    |(Machine.run ClockEstimator.feed ClockEstimator.default history).mapping.drift| ≤ maxDrift ∧
    ∃ selected,
      Lowest ((Machine.run ClockEstimator.feed ClockEstimator.default history).feed
        a).1.samples selected ∧
      (∀ other, Lowest ((Machine.run ClockEstimator.feed ClockEstimator.default history).feed
        a).1.samples other → other.Perm selected) ∧
      BestFit selected a.exchange.midpoint
        (Machine.run ClockEstimator.feed ClockEstimator.default history).mapping.drift
        ((Machine.run ClockEstimator.feed ClockEstimator.default history).feed a).1.mapping := by
  have hdrift : |(Machine.run ClockEstimator.feed ClockEstimator.default
      history).mapping.drift| ≤ maxDrift :=
    (Machine.run_invariant (P := ClockEstimator.Regular)
      (fun _ b h => h.observeTimed b.exchange b.publicationNs b.processedNs)
      ClockEstimator.regular_default history).drift
  have hchronological := ClockEstimator.chronological_run history
  generalize Machine.run ClockEstimator.feed ClockEstimator.default history = c at *
  refine ⟨hdrift, _, selectSamples_lowest _, ?_, ?_⟩
  · intro other hother
    exact hother.perm (hchronological.feed a).samples
  · obtain ⟨-, hmem, -, count, hmapping⟩ := ClockEstimator.observeInner_fit_of_accepted haccepted
    have hbest := fit_bestFit (List.ne_nil_of_mem hmem) a.exchange hdrift count
    rw [← hmapping] at hbest
    exact hbest

/-- Exchanges every 300 ms, without delay, with a leader 100 ppm fast. -/
def fastLeaderHistory (count : Nat) : List Arrival :=
  (List.range count).map (fun i =>
    let sent := 1000000000 + 300000000 * i
    ⟨⟨sent, sent + 30000 * i, sent + 30000 * i, sent⟩, none, sent⟩)

/-- After fifteen of them the next one fits a line of 100 ppm. -/
theorem fit_optimal_of_fastLeader :
    ∃ selected,
      Lowest ((Machine.run ClockEstimator.feed ClockEstimator.default
        (fastLeaderHistory 15)).feed
          ⟨⟨5500000000, 5500450000, 5500450000, 5500000000⟩, none, 5500000000⟩).1.samples
        selected ∧
      BestFit selected 5500000000
        (Machine.run ClockEstimator.feed ClockEstimator.default
          (fastLeaderHistory 15)).mapping.drift
        ((Machine.run ClockEstimator.feed ClockEstimator.default
          (fastLeaderHistory 15)).feed
            ⟨⟨5500000000, 5500450000, 5500450000, 5500000000⟩, none, 5500000000⟩).1.mapping := by
  have haccepted := fit_optimal (fastLeaderHistory 15)
    ⟨⟨5500000000, 5500450000, 5500450000, 5500000000⟩, none, 5500000000⟩ (by decide +kernel)
  obtain ⟨-, selected, hlowest, -, hbest⟩ := haccepted
  have hmidpoint :
      Exchange.midpoint ⟨5500000000, 5500450000, 5500450000, 5500000000⟩ = 5500000000 := by
    norm_num [Exchange.midpoint]
  rw [hmidpoint] at hbest
  exact ⟨selected, hlowest, hbest⟩

/-- Two of them lie on a line of 100 ppm too, but the fit keeps the drift of zero it
began with. -/
theorem fit_not_always_exact :
    ¬ ∀ (history : List Arrival) (a : Arrival) (selected : List Sample) (offset drift : ℚ),
      ((Machine.run ClockEstimator.feed ClockEstimator.default history).feed a).2 = true →
      Lowest ((Machine.run ClockEstimator.feed ClockEstimator.default history).feed
        a).1.samples selected →
      |drift| ≤ maxDrift → OnLine selected a.exchange.midpoint offset drift →
      OnLine selected a.exchange.midpoint
        ((Machine.run ClockEstimator.feed ClockEstimator.default history).feed
          a).1.mapping.offsetNs
        ((Machine.run ClockEstimator.feed ClockEstimator.default history).feed
          a).1.mapping.drift := by
  intro hclaim
  have hline := hclaim (fastLeaderHistory 1)
    ⟨⟨1300000000, 1300030000, 1300030000, 1300000000⟩, none, 1300000000⟩
    [⟨1300000000, 30000, 0, 0⟩, ⟨1000000000, 0, 0, 0⟩] 30000 (1 / 10000) (by decide +kernel)
    ⟨by decide +kernel, [], by decide +kernel, by simp⟩ (by decide +kernel)
    (by unfold OnLine; decide +kernel)
  revert hline
  unfold OnLine
  decide +kernel

end Tidkod
